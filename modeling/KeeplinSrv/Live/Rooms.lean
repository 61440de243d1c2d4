import KeeplinSrv.Live.Steps

/-!
# What holds in every state of an instance

`Server.Sound`: handles lead to sessions of their note, whoever is in a critical
section holds the lock of its session, and a connection that has joined a note is
a subscriber of the session it joined, with every batch in its queue that was
committed in that session since its snapshot was read, up to a batch whose
broadcast is still to come (`Server.Fed`).
-/

namespace KeeplinSrv

open Common

namespace Server

/-- A batch committed in the session is still to be broadcast. -/
def Pending (s : Server) (i b : ℕ) : Prop := ∃ e, (s.conns e).task.broadcasting = some (i, b)

/-- What a connection that joined the note in the session has been given since:
    unless a full queue cost it something, it is a subscriber, and the batches that
    the others committed in the session are in its queue or still to be broadcast. -/
def Fed (s : Server) (d : ℕ) (k : Connection) (n : Uuid) (i : ℕ) : Prop :=
  ∃ f, k.feeds.get? n = some f ∧ f.session = i ∧
    (f.dropped = true ∨ d ∈ (s.sessions i).subscribers ∧
      ∀ b x, f.seen ≤ b → s.commits[b]? = some x → x.session = i → x.conn ≠ d → x.applied ≠ [] →
        b ∈ k.got ∨ s.Pending i b)

/-- The invariant of one connection. -/
structure ConnOk (s : Server) (d : ℕ) (k : Connection) : Prop where
  live : k.task ≠ .closed ∨ (∃ n i, k.joined.get? n = some i) → d < s.nextConnId
  holds : ∀ n i, k.Holds n i → i < s.nextSession ∧ (s.sessions i).noteId = n
  locked : ∀ i, k.task.locked = some i → (s.sessions i).applyLock = some (.conn d)
  closing : k.task.closing = true → ∀ n, k.joined.get? n = none
  leaving : ∀ n i rest, k.task = .unsubscribe n i rest → ∀ n', k.joined.get? n' ≠ some i
  subscribing : ∀ n i seen, k.task.subscribing = some (n, i, seen) →
    ∀ b x, seen ≤ b → s.commits[b]? = some x → x.session ≠ i
  broadcasting : ∀ n i applied b, k.task = .opBroadcast n i applied b →
    ∃ x, s.commits[b]? = some x ∧ x.conn = d ∧ x.session = i ∧ x.noteId = n ∧ x.applied = applied
  fed : ∀ n i, k.joined.get? n = some i → s.Fed d k n i

/-- The invariant of the instance. -/
structure Sound (s : Server) : Prop where
  registered : ∀ n i, s.registry.get? n = some i →
    i < s.nextSession ∧ (s.sessions i).noteId = n
  fresh : ∀ i, s.nextSession ≤ i → (s.sessions i).subscribers = ∅
  conn : ∀ d, s.ConnOk d (s.conns d)

theorem sound_init (db : Db) : (init db).Sound where
  registered n i h := by cases h
  fresh i _ := rfl
  conn d :=
    { live := by simp [init, Hub.init, Connection.absent]
      holds := by simp [init, Hub.init, Connection.absent, Connection.Holds, Task.handle]
      locked := fun i h => by cases h
      closing := fun _ n => rfl
      leaving := fun n i rest h => by cases h
      subscribing := fun n i seen h => by cases h
      broadcasting := fun _ _ _ _ h => by cases h
      fed := fun n i h => by cases h }

/-! ## Steps of others -/

/-- What the step of connection `c` does to the rooms that the others are in. -/
structure Keeps (c : ℕ) (s s' : Server) : Prop where
  nextConnId : s.nextConnId ≤ s'.nextConnId
  nextSession : s.nextSession ≤ s'.nextSession
  noteId : ∀ j < s.nextSession, (s'.sessions j).noteId = (s.sessions j).noteId
  locks : ∀ j < s.nextSession, ∀ e, e ≠ c → (s.sessions j).applyLock = some (.conn e) →
    (s'.sessions j).applyLock = some (.conn e)
  members : ∀ j < s.nextSession, ∀ e ∈ (s.sessions j).subscribers,
    e ∈ (s'.sessions j).subscribers ∨ e = c ∧ ∀ n, (s.conns c).joined.get? n ≠ some j
  kept : ∀ (b : ℕ) (x : Commit), s.commits[b]? = some x → s'.commits[b]? = some x
  added : ∀ (b : ℕ) (x : Commit), s'.commits[b]? = some x → s.commits[b]? = some x ∨
    x.conn = c ∧ (s.sessions x.session).applyLock = some (.conn c) ∧
      (x.applied ≠ [] → s'.Pending x.session b)
  pending : ∀ i b, s.Pending i b → s'.Pending i b

section

variable {core : KeeplinCore} {instanceId : Uuid} {s s' : Server} {c d i j : ℕ} {n : Uuid}
  {k k' : Connection} {t : Task}

theorem Fed.keeps (h : s.Fed d k n i) (hk : Keeps c s s') (hi : i < s.nextSession)
    (hd : d = c → ∃ n, (s.conns c).joined.get? n = some i) (hfeeds : k'.feeds = k.feeds)
    (hgot : k.got ⊆ k'.got) : s'.Fed d k' n i := by
  obtain ⟨f, hf, hfi, hor⟩ := h
  refine ⟨f, hfeeds ▸ hf, hfi, hor.imp_right ?_⟩
  rintro ⟨hmem, hall⟩
  constructor
  · rcases hk.members i hi d hmem with hmem' | ⟨hdc, hne⟩
    · exact hmem'
    · obtain ⟨n', hn'⟩ := hd hdc
      exact absurd hn' (hne n')
  · intro b x hb hx hxi hxd hxa
    rcases hk.added b x hx with hold | ⟨-, -, hnew⟩
    · exact (hall b x hb hold hxi hxd hxa).imp (@hgot b) (hk.pending i b)
    · exact .inr (hxi ▸ hnew hxa)

theorem ConnOk.holds_keeps (h : s.ConnOk d k) (hk : Keeps c s s') (hh : k.Holds n i) :
    i < s'.nextSession ∧ (s'.sessions i).noteId = n := by
  obtain ⟨hi, hn⟩ := h.holds n i hh
  exact ⟨hi.trans_le hk.nextSession, (hk.noteId i hi).trans hn⟩

/-- A connection that does not act. -/
theorem ConnOk.keeps (h : s.ConnOk d k) (hk : Keeps c s s') (hd : d ≠ c) : s'.ConnOk d k where
  live hl := (h.live hl).trans_le hk.nextConnId
  holds n i hh := h.holds_keeps hk hh
  locked i hl := by
    obtain ⟨n, hn⟩ := Task.handle_of_locked hl
    exact hk.locks i (h.holds n i (.inr hn)).1 d hd (h.locked i hl)
  closing := h.closing
  leaving := h.leaving
  subscribing n i seen hs b x hb hx hxi := by
    rcases hk.added b x hx with hold | ⟨-, hlock, -⟩
    · exact h.subscribing n i seen hs b x hb hold hxi
    · rw [hxi, h.locked i (Task.locked_of_subscribing hs).1] at hlock
      exact hd (Holder.conn.inj (Option.some.inj hlock))
  broadcasting n i applied b hb := by
    obtain ⟨x, hx, hrest⟩ := h.broadcasting n i applied b hb
    exact ⟨x, hk.kept b x hx, hrest⟩
  fed n i hj :=
    (h.fed n i hj).keeps hk (h.holds n i (.inl hj)).1 (fun hdc => absurd hdc hd) rfl
      (List.Subset.refl _)

/-- The connection that acts, where it joins no note. -/
theorem ConnOk.act (h : s.ConnOk c (s.conns c)) (hk : Keeps c s s')
    (hjoined : ∀ n i, k.joined.get? n = some i → (s.conns c).joined.get? n = some i)
    (hfeeds : k.feeds = (s.conns c).feeds) (hgot : k.got = (s.conns c).got)
    (hopen : (s.conns c).task ≠ .closed)
    (hhandle : ∀ n i, k.task.handle = some (n, i) →
      i < s'.nextSession ∧ (s'.sessions i).noteId = n)
    (hlocked : ∀ i, k.task.locked = some i → (s'.sessions i).applyLock = some (.conn c))
    (hclosing : k.task.closing = true → ∀ n, k.joined.get? n = none)
    (hleaving : ∀ n i rest, k.task = .unsubscribe n i rest → ∀ n', k.joined.get? n' ≠ some i)
    (hsubscribing : ∀ n i seen, k.task.subscribing = some (n, i, seen) →
      ∀ b x, seen ≤ b → s'.commits[b]? = some x → x.session ≠ i)
    (hbroadcasting : ∀ n i applied b, k.task = .opBroadcast n i applied b →
      ∃ x, s'.commits[b]? = some x ∧ x.conn = c ∧ x.session = i ∧ x.noteId = n ∧
        x.applied = applied) : s'.ConnOk c k where
  live _ := (h.live (.inl hopen)).trans_le hk.nextConnId
  holds n i hh := by
    rcases hh with hj | hh
    · exact h.holds_keeps hk (.inl (hjoined n i hj))
    · exact hhandle n i hh
  locked := hlocked
  closing := hclosing
  leaving := hleaving
  subscribing := hsubscribing
  broadcasting := hbroadcasting
  fed n i hj := by
    have hold := hjoined n i hj
    exact (h.fed n i hold).keeps hk (h.holds n i (.inl hold)).1 (fun _ => ⟨n, hold⟩) hfeeds
      (hgot ▸ List.Subset.refl _)

/-- The invariant after a step in which only connection `c` changes. -/
theorem Sound.act (h : s.Sound) (hk : Keeps c s s') (hconns : s'.conns = Function.update s.conns c k)
    (hregistered : ∀ n i, s'.registry.get? n = some i →
      i < s'.nextSession ∧ (s'.sessions i).noteId = n)
    (hfresh : ∀ i, s'.nextSession ≤ i → (s'.sessions i).subscribers = ∅)
    (hc : s'.ConnOk c k) : s'.Sound where
  registered := hregistered
  fresh := hfresh
  conn d := by
    rw [hconns, Function.update_apply]
    split_ifs with hd
    · exact hd ▸ hc
    · exact (h.conn d).keeps hk hd

/-- Where only the record of a connection changes, the registry and the sessions are
    as they were. -/
theorem Sound.registered_of (h : s.Sound) (hregistry : s'.registry = s.registry)
    (hnext : s.nextSession ≤ s'.nextSession)
    (hnote : ∀ j < s.nextSession, (s'.sessions j).noteId = (s.sessions j).noteId) :
    ∀ n i, s'.registry.get? n = some i → i < s'.nextSession ∧ (s'.sessions i).noteId = n := by
  intro n i hr
  rw [hregistry] at hr
  obtain ⟨hi, hn⟩ := h.registered n i hr
  exact ⟨hi.trans_le hnext, (hnote i hi).trans hn⟩

theorem pending_update (hconns : s'.conns = Function.update s.conns c k)
    (hb : ∀ p, (s.conns c).task.broadcasting = some p → k.task.broadcasting = some p) (i b : ℕ)
    (h : s.Pending i b) : s'.Pending i b := by
  obtain ⟨e, he⟩ := h
  refine ⟨e, ?_⟩
  rw [hconns, Function.update_apply]
  split_ifs with hec
  · exact hb _ (hec ▸ he)
  · exact he

/-- The record of one connection changes, and nothing else that matters. -/
theorem Keeps.of_conn (hsessions : s'.sessions = s.sessions)
    (hnextSession : s'.nextSession = s.nextSession) (hnextConnId : s'.nextConnId = s.nextConnId)
    (hcommits : s'.commits = s.commits) (hconns : s'.conns = Function.update s.conns d k)
    (hb : ∀ p, (s.conns d).task.broadcasting = some p → k.task.broadcasting = some p) :
    Keeps c s s' where
  nextConnId := hnextConnId.ge
  nextSession := hnextSession.ge
  noteId _ _ := by rw [hsessions]
  locks _ _ _ _ hl := by rwa [hsessions]
  members _ _ _ hm := .inl (by rwa [hsessions])
  kept _ _ hx := by rwa [hcommits]
  added _ _ hx := .inl (by rwa [← hcommits])
  pending := pending_update hconns hb

/-- A session and the record of the connection change. -/
theorem Keeps.of_session {x : CollabSession} (hsessions : s'.sessions = Function.update s.sessions i x)
    (hnote : x.noteId = (s.sessions i).noteId)
    (hlock : ∀ e, e ≠ c → (s.sessions i).applyLock = some (.conn e) →
      x.applyLock = some (.conn e))
    (hmem : ∀ e ∈ (s.sessions i).subscribers,
      e ∈ x.subscribers ∨ e = c ∧ ∀ n, (s.conns c).joined.get? n ≠ some i)
    (hnextSession : s'.nextSession = s.nextSession) (hnextConnId : s'.nextConnId = s.nextConnId)
    (hcommits : s'.commits = s.commits) (hconns : s'.conns = Function.update s.conns c k)
    (hb : ∀ p, (s.conns c).task.broadcasting = some p → k.task.broadcasting = some p) :
    Keeps c s s' where
  nextConnId := hnextConnId.ge
  nextSession := hnextSession.ge
  noteId j _ := by
    rw [hsessions, Function.update_apply]
    split_ifs with hj
    · rw [hj, hnote]
    · rfl
  locks j _ e he hl := by
    rw [hsessions, Function.update_apply]
    split_ifs with hj
    · exact hlock e he (hj ▸ hl)
    · exact hl
  members j _ e he := by
    rw [hsessions, Function.update_apply]
    split_ifs with hj
    · exact hj ▸ hmem e (hj ▸ he)
    · exact .inl he
  kept _ _ hx := by rwa [hcommits]
  added _ _ hx := .inl (by rwa [← hcommits])
  pending := pending_update hconns hb

/-! ## The rules -/

theorem got_of_sent {msgs : List CollabServerMsg} (hsent : k'.sent = k.sent ++ msgs)
    (hnone : ∀ msg ∈ msgs, msg.batch? = none) : k'.got = k.got := by
  rw [Connection.got, Connection.got, hsent, List.filterMap_append,
    List.filterMap_eq_nil_iff.mpr hnone, List.append_nil]

theorem told_got (h : k.Told k') : k'.got = k.got := by
  obtain ⟨msgs, hsent, hnone⟩ := h.sent
  exact got_of_sent hsent hnone

theorem Sound.move {locks : Finset Uuid} (h : s.Sound) (hc : (s.conns c).task ≠ .closed)
    (hm : (s.conns c).Moves k) :
    Sound { s with orderLocks := locks, toHub := s.setConn c k } := by
  have hk : Keeps c s { s with orderLocks := locks, toHub := s.setConn c k } :=
    .of_conn rfl rfl rfl rfl rfl fun p hp => by cases hm.broadcasting.1.symm.trans hp
  obtain ⟨msgs, hsent, hnone⟩ := hm.sent
  refine h.act hk rfl (h.registered_of rfl le_rfl fun _ _ => rfl) h.fresh
    ((h.conn c).act hk hm.joined hm.feeds (got_of_sent hsent hnone) hc ?_ ?_ ?_ ?_ ?_ ?_)
  · exact fun n i hh => (h.conn c).holds_keeps hk (hm.handle n i hh)
  · exact fun i hl => (h.conn c).locked i (hm.locked ▸ hl)
  · intro hclosing n
    rcases hm.closing hclosing with ⟨hold, hsame⟩ | hnone
    · rw [hsame]
      exact (h.conn c).closing hold n
    · exact hnone n
  · intro n i rest ht n' hj
    rcases hm.unsubscribe n i rest ht with ⟨hold, hsame⟩ | ⟨hn, herase⟩
    · rw [hsame, (h.conn c).closing hold n'] at hj
      cases hj
    · rw [herase, FinMap.get?_erase_singleton] at hj
      have hn' := ((h.conn c).holds n' i (.inl hj.2)).2
      exact hj.1 (hn'.symm.trans ((h.conn c).holds n i (.inl hn)).2)
  · exact fun n i seen hs => by cases hm.subscribing.2.symm.trans hs
  · intro n i applied b ht
    have hnone := hm.broadcasting.2
    rw [ht] at hnone
    cases hnone

theorem Sound.write (h : s.Sound) :
    Sound (s.rooms (s.setConn c { s.conns c with taken := (s.conns c).taken + 1 })) where
  registered := h.registered
  fresh := h.fresh
  conn d := by
    have hk : ∀ e, Keeps e s
        (s.rooms (s.setConn c { s.conns c with taken := (s.conns c).taken + 1 })) :=
      fun e => .of_conn rfl rfl rfl rfl rfl fun p hp => hp
    have hd := (h.conn d).keeps (hk (d + 1)) (Nat.ne_of_lt (Nat.lt_succ_self d))
    simp only [rooms, Hub.conns_setConn, Function.update_apply]
    split_ifs with hdc
    · subst hdc
      exact { hd with }
    · exact hd

/-- A connection without handles of its own is not in a critical section. -/
theorem locked_eq_none (ht : t.handle = none) : t.locked = none := by
  cases hl : t.locked with
  | none => rfl
  | some i =>
    obtain ⟨n, hn⟩ := Task.handle_of_locked hl
    cases ht.symm.trans hn

/-- The acting connection goes on to a task that has no handle. -/
theorem ConnOk.act_plain (h : s.ConnOk c (s.conns c)) (hk : Keeps c s s')
    (hopen : (s.conns c).task ≠ .closed) (hjoined : k.joined = (s.conns c).joined)
    (hfeeds : k.feeds = (s.conns c).feeds) (hgot : k.got = (s.conns c).got)
    (hhandle : k.task.handle = none)
    (hclosing : k.task.closing = true → (s.conns c).task.closing = true)
    (hleaving : ∀ n i rest, k.task ≠ .unsubscribe n i rest) : s'.ConnOk c k := by
  have hlocked := locked_eq_none hhandle
  refine h.act hk (fun n i hj => hjoined ▸ hj) hfeeds hgot hopen ?_ ?_ ?_ ?_ ?_ ?_
  · exact fun n i hh => by cases hhandle.symm.trans hh
  · exact fun i hl => by cases hlocked.symm.trans hl
  · exact fun hcl n => hjoined ▸ h.closing (hclosing hcl) n
  · exact fun n i rest ht => absurd ht (hleaving n i rest)
  · exact fun n i seen hs => by cases (Task.subscribing_eq_none hlocked).symm.trans hs
  · intro n i applied b ht
    rw [ht] at hlocked
    cases hlocked

/-- A handler goes on to a task that has no handle, the rooms unchanged. -/
theorem Sound.goto (h : s.Sound) {shared : Shared} (hcommits : shared.commits = s.commits)
    (hopen : (s.conns c).task ≠ .closed) (hl : (s.conns c).task.locked = none)
    (hhandle : t.handle = none) (hclosing : t.closing = true → (s.conns c).task.closing = true)
    (hleaving : ∀ n i rest, t ≠ .unsubscribe n i rest) :
    Sound ⟨shared, s.toHub.goto c t⟩ := by
  have hk : Keeps c s ⟨shared, s.toHub.goto c t⟩ :=
    .of_conn rfl rfl rfl hcommits rfl fun p hp => by
      cases (Task.broadcasting_eq_none hl).symm.trans hp
  exact h.act hk rfl (h.registered_of rfl le_rfl fun _ _ => rfl) h.fresh
    ((h.conn c).act_plain hk hopen rfl rfl rfl hhandle hclosing hleaving)

theorem Sound.connect (h : s.Sound) (userId deviceId : Uuid) :
    Sound { s with
      conns := Function.update s.conns s.nextConnId
        ⟨userId, deviceId, .idle, .empty, [], 0, .empty⟩
      nextConnId := s.nextConnId + 1 } := by
  set s' : Server := { s with
    conns := Function.update s.conns s.nextConnId
      ⟨userId, deviceId, .idle, .empty, [], 0, .empty⟩
    nextConnId := s.nextConnId + 1 } with hs'
  have hclosed : (s.conns s.nextConnId).task = .closed := by
    by_contra hne
    exact lt_irrefl _ ((h.conn s.nextConnId).live (.inl hne))
  have hk : Keeps s.nextConnId s s' :=
    { nextConnId := Nat.le_succ _
      nextSession := le_rfl
      noteId := fun _ _ => rfl
      locks := fun _ _ _ _ hl => hl
      members := fun _ _ _ hm => .inl hm
      kept := fun _ _ hx => hx
      added := fun _ _ hx => .inl hx
      pending := pending_update rfl fun p hp => by rw [hclosed] at hp; cases hp }
  refine h.act hk rfl (h.registered_of rfl le_rfl fun _ _ => rfl) h.fresh ?_
  exact
    { live := fun _ => Nat.lt_succ_self _
      holds := fun n i hh => by rcases hh with hj | hh <;> [cases hj; cases hh]
      locked := fun i hl => by cases hl
      closing := fun _ n => rfl
      leaving := fun n i rest ht => by cases ht
      subscribing := fun n i seen hs => by cases hs
      broadcasting := fun _ _ _ _ hb => by cases hb
      fed := fun n i hj => by cases hj }

theorem Sound.joinExisting (h : s.Sound) (ht : (s.conns c).task = .joinSession n)
    (hr : s.registry.get? n = some i) : Sound (s.rooms (s.goto c (.joinLock n i))) := by
  have hk : Keeps c s (s.rooms (s.goto c (.joinLock n i))) :=
    .of_conn rfl rfl rfl rfl rfl fun p hp => by rw [ht] at hp; cases hp
  refine h.act hk rfl (h.registered_of rfl le_rfl fun _ _ => rfl) h.fresh
    ((h.conn c).act hk (fun _ _ hj => hj) rfl rfl (ne_closed ht (by simp)) ?_ ?_ ?_ ?_ ?_ ?_)
  · intro n' i' hh
    obtain ⟨rfl, rfl⟩ : n = n' ∧ i = i' := by simpa [Task.handle] using hh
    exact h.registered n i hr
  · exact fun i hl => by cases hl
  · exact fun hcl => by cases hcl
  · exact fun _ _ _ ht' => by cases ht'
  · exact fun _ _ _ hs => by cases hs
  · exact fun _ _ _ _ hb => by cases hb

theorem Sound.create (h : s.Sound) (ht : (s.conns c).task = .joinSession n) :
    Sound { s with
      sessions := Function.update s.sessions s.nextSession (.new n)
      registry := s.registry.insert n s.nextSession
      nextSession := s.nextSession + 1
      conns := Function.update s.conns c
        { s.conns c with task := .joinLock n s.nextSession } } := by
  set s' : Server := { s with
    sessions := Function.update s.sessions s.nextSession (.new n)
    registry := s.registry.insert n s.nextSession
    nextSession := s.nextSession + 1
    conns := Function.update s.conns c { s.conns c with task := .joinLock n s.nextSession } }
    with hs'
  have hold : ∀ j < s.nextSession, s'.sessions j = s.sessions j :=
    fun j hj => Function.update_of_ne hj.ne _ _
  have hnew : s'.sessions s.nextSession = .new n := Function.update_self ..
  have hk : Keeps c s s' :=
    { nextConnId := le_rfl
      nextSession := Nat.le_succ _
      noteId := fun j hj => by rw [hold j hj]
      locks := fun j hj _ _ hl => by rwa [hold j hj]
      members := fun j hj _ hm => .inl (by rwa [hold j hj])
      kept := fun _ _ hx => hx
      added := fun _ _ hx => .inl hx
      pending := pending_update rfl fun p hp => by rw [ht] at hp; cases hp }
  refine h.act hk rfl ?_ ?_
    ((h.conn c).act hk (fun _ _ hj => hj) rfl rfl (ne_closed ht (by simp)) ?_ ?_ ?_ ?_ ?_ ?_)
  · intro n' i' hr
    rw [hs', FinMap.get?_insert] at hr
    split_ifs at hr with hn
    · obtain rfl := Option.some.inj hr
      exact ⟨Nat.lt_succ_self _, by rw [hnew, hn]; rfl⟩
    · obtain ⟨hi, hnote⟩ := h.registered n' i' hr
      exact ⟨hi.trans (Nat.lt_succ_self _), by rw [hold i' hi, hnote]⟩
  · intro j hj
    have hj' : s.nextSession < j := hj
    have hother : s'.sessions j = s.sessions j := Function.update_of_ne hj'.ne' _ _
    rw [hother, h.fresh j hj'.le]
  · intro n' i' hh
    obtain ⟨rfl, rfl⟩ : n = n' ∧ s.nextSession = i' := by simpa [Task.handle] using hh
    exact ⟨Nat.lt_succ_self _, by rw [hnew]; rfl⟩
  · exact fun i hl => by cases hl
  · exact fun hcl => by cases hcl
  · exact fun _ _ _ ht' => by cases ht'
  · exact fun _ _ _ hs => by cases hs
  · exact fun _ _ _ _ hb => by cases hb

/-- A handler takes the lock of the session it has a handle to. -/
theorem Sound.acquire (h : s.Sound) (hfree : (s.sessions i).applyLock = none)
    (hopen : (s.conns c).task ≠ .closed) (hold : (s.conns c).task.handle = some (n, i))
    (hhandle : t.handle = some (n, i)) (hlocked : t.locked = some i)
    (hunlocked : (s.conns c).task.locked = none) (hclosing : t.closing = false)
    (hsubscribing : t.subscribing = none) (hbroadcasting : t.broadcasting = none)
    (hleaving : ∀ n i rest, t ≠ .unsubscribe n i rest) :
    Sound (s.rooms ((s.setSession i
      { s.sessions i with applyLock := some (.conn c) }).goto c t)) := by
  set s' := s.rooms ((s.setSession i
    { s.sessions i with applyLock := some (.conn c) }).goto c t) with hs'
  have hk : Keeps c s s' := by
    refine .of_session rfl rfl (fun e _ he => ?_) (fun e he => .inl he) rfl rfl rfl rfl fun p hp => ?_
    · rw [hfree] at he
      cases he
    · cases (Task.broadcasting_eq_none hunlocked).symm.trans hp
  refine h.act hk rfl (h.registered_of rfl le_rfl hk.noteId) ?_
    ((h.conn c).act hk (fun _ _ hj => hj) rfl rfl hopen ?_ ?_ ?_ ?_ ?_ ?_)
  · intro j hj
    have hnext : s.nextSession ≤ j := hj
    have hi := ((h.conn c).holds n i (.inr hold)).1
    have hother : s'.sessions j = s.sessions j :=
      Function.update_of_ne (hi.trans_le hnext).ne' _ _
    rw [hother, h.fresh j hnext]
  · intro n' i' hh
    obtain ⟨rfl, rfl⟩ : n = n' ∧ i = i' := by simpa using hhandle.symm.trans hh
    exact (h.conn c).holds_keeps hk (.inr hold)
  · intro j hl
    obtain rfl : i = j := Option.some.inj (hlocked.symm.trans hl)
    exact congrArg CollabSession.applyLock (Function.update_self i _ s.sessions)
  · exact fun hcl => by cases hclosing.symm.trans hcl
  · exact fun n i rest ht => absurd ht (hleaving n i rest)
  · exact fun _ _ _ hs => by cases hsubscribing.symm.trans hs
  · rintro n i applied b rfl
    cases hbroadcasting

theorem Sound.readLines {order : NoteOrder} (h : s.Sound)
    (ht : (s.conns c).task = .joinLines n i order) :
    Sound (s.rooms (s.goto c
      (.joinSubscribe n i (snapshotOf n order (s.db.linesOf n)) s.commits.length))) := by
  set s' := s.rooms (s.goto c
    (.joinSubscribe n i (snapshotOf n order (s.db.linesOf n)) s.commits.length)) with hs'
  have hk : Keeps c s s' := .of_conn rfl rfl rfl rfl rfl fun p hp => by rw [ht] at hp; cases hp
  refine h.act hk rfl (h.registered_of rfl le_rfl fun _ _ => rfl) h.fresh
    ((h.conn c).act hk (fun _ _ hj => hj) rfl rfl (ne_closed ht (by simp)) ?_ ?_ ?_ ?_ ?_ ?_)
  · intro n' i' hh
    obtain ⟨rfl, rfl⟩ : n = n' ∧ i = i' := by simpa [Task.handle] using hh
    exact (h.conn c).holds_keeps hk (.inr (by rw [ht]; rfl))
  · intro j hl
    obtain rfl : i = j := by simpa [Task.locked] using hl
    exact (h.conn c).locked i (by rw [ht]; rfl)
  · exact fun hcl => by cases hcl
  · exact fun _ _ _ ht' => by cases ht'
  · intro n' i' seen hs b x hb hx
    obtain ⟨-, -, rfl⟩ : n = n' ∧ i = i' ∧ s.commits.length = seen := by
      simpa [Task.subscribing] using hs
    exact absurd (List.getElem?_eq_some_iff.mp hx).1 (not_lt.mpr hb)
  · exact fun _ _ _ _ hb => by cases hb

/-- The connection is told something and its handler leaves the critical section. -/
theorem Sound.release {locks : Finset Uuid} (h : s.Sound) (hl : (s.conns c).task.locked = some i)
    (hb : (s.conns c).task.broadcasting = none) (hm : (s.conns c).Told k)
    (hhandle : t.handle = none) (hclosing : t.closing = false)
    (hleaving : ∀ n i rest, t ≠ .unsubscribe n i rest) :
    Sound { s with orderLocks := locks, toHub := ((s.setConn c k).unlock i).goto c t } := by
  set s' : Server := { s with
    orderLocks := locks, toHub := ((s.setConn c k).unlock i).goto c t } with hs'
  have hconns : s'.conns = Function.update s.conns c { k with task := t } := by
    simp [hs', Hub.goto, Hub.unlock, Hub.setConn, Hub.setSession]
  have hlocked := (h.conn c).locked i hl
  have hopen : (s.conns c).task ≠ .closed := fun hcl => by rw [hcl] at hl; cases hl
  have hgot : k.got = (s.conns c).got := told_got hm
  have hk : Keeps c s s' := by
    refine .of_session rfl rfl (fun e he hlock => ?_) (fun e he => .inl he) rfl rfl rfl hconns
      fun p hp => ?_
    · rw [hlocked] at hlock
      exact absurd (Holder.conn.inj (Option.some.inj hlock)).symm he
    · cases hb.symm.trans hp
  refine h.act hk hconns (h.registered_of rfl le_rfl hk.noteId) ?_
    ((h.conn c).act_plain hk hopen hm.joined hm.feeds hgot hhandle
      (fun hcl => by cases hclosing.symm.trans hcl) hleaving)
  intro j hj
  have hnext : s.nextSession ≤ j := hj
  obtain ⟨n, hn⟩ := Task.handle_of_locked hl
  have hi := ((h.conn c).holds n i (.inr hn)).1
  have hother : s'.sessions j = s.sessions j :=
    Function.update_of_ne (hi.trans_le hnext).ne' _ _
  rw [hother, h.fresh j hnext]

theorem getElem?_concat {α : Type} {l : List α} {x y : α} {b : ℕ} :
    (l ++ [x])[b]? = some y ↔ l[b]? = some y ∨ b = l.length ∧ x = y := by
  rw [List.getElem?_append]
  split_ifs with hb
  · simp [hb.ne]
  · rw [List.getElem?_eq_none (not_lt.mp hb)]
    rcases Nat.eq_or_lt_of_le (not_lt.mp hb) with rfl | hlt
    · simp
    · simp [hlt.ne', (Nat.sub_pos_of_lt hlt).ne']

/-- What a commit means for the others. -/
theorem Keeps.of_commit {x : Commit} (h : s.Sound) (hxc : x.conn = c)
    (hl : (s.conns c).task.locked = some x.session)
    (hb : (s.conns c).task.broadcasting = none)
    (hnextSession : s'.nextSession = s.nextSession) (hnextConnId : s'.nextConnId = s.nextConnId)
    (hcommits : s'.commits = s.commits ++ [x]) (hconns : s'.conns = Function.update s.conns c k)
    (hsessions : ∀ j, (s'.sessions j).noteId = (s.sessions j).noteId ∧
      (s'.sessions j).subscribers = (s.sessions j).subscribers ∧
      (j ≠ x.session → (s'.sessions j).applyLock = (s.sessions j).applyLock))
    (hnew : x.applied ≠ [] → k.task.broadcasting = some (x.session, s.commits.length)) :
    Keeps c s s' where
  nextConnId := hnextConnId.ge
  nextSession := hnextSession.ge
  noteId j _ := (hsessions j).1
  locks j _ e he hlock := by
    have hj : j ≠ x.session := by
      rintro rfl
      rw [(h.conn c).locked _ hl] at hlock
      exact he (Holder.conn.inj (Option.some.inj hlock)).symm
    rw [(hsessions j).2.2 hj, hlock]
  members j _ e he := .inl (by rwa [(hsessions j).2.1])
  kept b y hy := by
    rw [hcommits, getElem?_concat]
    exact .inl hy
  added b y hy := by
    rw [hcommits, getElem?_concat] at hy
    refine hy.imp_right ?_
    rintro ⟨rfl, rfl⟩
    refine ⟨hxc, (h.conn c).locked _ hl, fun hxa => ⟨c, ?_⟩⟩
    rw [hconns, Function.update_self, hnew hxa]
  pending := pending_update hconns fun p hp => by cases hb.symm.trans hp

section

variable {ops : List LineOp} {now : DateTime} {outcomes : List OpOutcome} {db : Db}
  {locks : Finset Uuid}

theorem Sound.commitNothing (h : s.Sound) (ht : (s.conns c).task = .opApply n i ops)
    (hm : (s.conns c).Told k) (hnone : opsApplied outcomes = []) :
    Sound { s with
      db, orderLocks := locks
      commits := s.commits ++
        [⟨instanceId, c, i, ⟨now, n, (s.conns c).deviceId, ops⟩, outcomes, db⟩]
      toHub := ((s.setConn c k).unlock i).goto c .idle } := by
  set x : Commit := ⟨instanceId, c, i, ⟨now, n, (s.conns c).deviceId, ops⟩, outcomes, db⟩ with hx
  set s' : Server := { s with
    db, orderLocks := locks, commits := s.commits ++ [x]
    toHub := ((s.setConn c k).unlock i).goto c .idle } with hs'
  have hconns : s'.conns = Function.update s.conns c { k with task := .idle } := by
    simp [hs', Hub.goto, Hub.unlock, Hub.setConn, Hub.setSession]
  have hgot : k.got = (s.conns c).got := told_got hm
  have hl : (s.conns c).task.locked = some x.session := by rw [ht]; rfl
  have hi := ((h.conn c).holds n i (.inr (by rw [ht]; rfl))).1
  have hsession : s'.sessions =
      Function.update s.sessions i { s.sessions i with applyLock := none } := rfl
  have hk : Keeps c s s' := by
    refine .of_commit h rfl hl (by rw [ht]; rfl) rfl rfl rfl hconns (fun j => ?_)
      fun hxa => absurd hnone hxa
    rw [hsession, Function.update_apply]
    split_ifs with hj
    · exact ⟨by rw [hj], by rw [hj], fun hne => absurd hj hne⟩
    · exact ⟨rfl, rfl, fun _ => rfl⟩
  refine h.act hk hconns (h.registered_of rfl le_rfl hk.noteId) ?_
    ((h.conn c).act_plain hk (ne_closed ht (by simp)) hm.joined hm.feeds hgot rfl
      (fun hcl => by cases hcl) (by simp))
  intro j hj
  have hnext : s.nextSession ≤ j := hj
  rw [hsession, Function.update_of_ne (hi.trans_le hnext).ne', h.fresh j hnext]

theorem Sound.commit (h : s.Sound) (ht : (s.conns c).task = .opApply n i ops)
    (hm : (s.conns c).Told k) :
    Sound { s with
      db, orderLocks := locks
      commits := s.commits ++
        [⟨instanceId, c, i, ⟨now, n, (s.conns c).deviceId, ops⟩, outcomes, db⟩]
      toHub := (s.setConn c k).goto c
        (.opBroadcast n i (opsApplied outcomes) s.commits.length) } := by
  set x : Commit := ⟨instanceId, c, i, ⟨now, n, (s.conns c).deviceId, ops⟩, outcomes, db⟩ with hx
  set task : Task := .opBroadcast n i (opsApplied outcomes) s.commits.length with htask
  set s' : Server := { s with
    db, orderLocks := locks, commits := s.commits ++ [x], toHub := (s.setConn c k).goto c task }
    with hs'
  have hconns : s'.conns = Function.update s.conns c { k with task } := by
    simp [hs', Hub.goto, Hub.setConn]
  have hgot : k.got = (s.conns c).got := told_got hm
  have hl : (s.conns c).task.locked = some x.session := by rw [ht]; rfl
  have hk : Keeps c s s' :=
    .of_commit h rfl hl (by rw [ht]; rfl) rfl rfl rfl hconns
      (fun j => ⟨rfl, rfl, fun _ => rfl⟩) fun _ => rfl
  refine h.act hk hconns (h.registered_of rfl le_rfl hk.noteId) h.fresh
    ((h.conn c).act hk (fun n i hj => hm.joined ▸ hj) hm.feeds hgot (ne_closed ht (by simp))
      ?_ ?_ ?_ ?_ ?_ ?_)
  · intro n' i' hh
    obtain ⟨rfl, rfl⟩ : n = n' ∧ i = i' := by simpa [htask, Task.handle] using hh
    exact (h.conn c).holds_keeps hk (.inr (by rw [ht]; rfl))
  · intro j hj
    obtain rfl : i = j := by simpa [htask, Task.locked] using hj
    exact (h.conn c).locked i hl
  · exact fun hcl => by cases hcl
  · exact fun _ _ _ ht' => by cases ht'
  · exact fun _ _ _ hs => by cases hs
  · intro n' j applied b hb
    obtain ⟨rfl, rfl, rfl, rfl⟩ :
        n = n' ∧ i = j ∧ opsApplied outcomes = applied ∧ s.commits.length = b := by
      simpa [htask] using hb
    exact ⟨x, getElem?_concat.mpr (.inr ⟨rfl, rfl⟩), rfl, rfl, rfl, rfl⟩

end

/-- The record of a connection at the end of its `Join`. -/
theorem subscribed_conns {seen : ℕ} {snapshot : NoteLinesSnapshot} :
    ∃ k, (s.conns c).Told k ∧ (s.subscribed c n i snapshot seen).conns =
      Function.update s.conns c { k with
        joined := (s.conns c).joined.insert n i
        feeds := (s.conns c).feeds.insert n ⟨i, seen, false⟩
        task := .touchPresence n } := by
  refine ⟨(s.conns c).trySend (.welcome n snapshot), .trySend rfl, ?_⟩
  simp [subscribed, Hub.tell, Hub.setConn, Hub.unlock, Hub.setSession, Hub.subscribe]

theorem Sound.subscribed {seen : ℕ} {snapshot : NoteLinesSnapshot} (h : s.Sound)
    (ht : (s.conns c).task = .joinSubscribe n i snapshot seen) :
    Sound (s.rooms (s.subscribed c n i snapshot seen)) := by
  set s' := s.rooms (s.subscribed c n i snapshot seen) with hs'
  obtain ⟨k, hm, hconns⟩ := @subscribed_conns s c i n seen snapshot
  have hgot : k.got = (s.conns c).got := told_got hm
  have hl : (s.conns c).task.locked = some i := by rw [ht]; rfl
  have hsub : (s.conns c).task.subscribing = some (n, i, seen) := by rw [ht]; rfl
  have hold := (h.conn c).holds n i (.inr (by rw [ht]; rfl))
  have hsession : s'.sessions = Function.update s.sessions i { s.sessions i with
      applyLock := none, subscribers := insert c (s.sessions i).subscribers } := by
    simp [hs', rooms, Server.subscribed, Hub.tell, Hub.setConn, Hub.unlock, Hub.setSession,
      Hub.subscribe]
  have hk : Keeps c s s' := by
    refine .of_session hsession rfl (fun e he hlock => ?_)
      (fun e he => .inl (Finset.mem_insert_of_mem he)) rfl rfl rfl hconns fun p hp => ?_
    · rw [(h.conn c).locked i hl] at hlock
      exact absurd (Holder.conn.inj (Option.some.inj hlock)).symm he
    · rw [ht] at hp
      cases hp
  refine h.act hk hconns (h.registered_of rfl le_rfl hk.noteId) ?_ ?_
  · intro j hj
    have hnext : s.nextSession ≤ j := hj
    rw [hsession, Function.update_of_ne (hold.1.trans_le hnext).ne', h.fresh j hnext]
  · exact
    { live := fun _ => (h.conn c).live (.inl (ne_closed ht (by simp)))
      holds := by
        intro n' i' hh
        rcases hh with hj | hh
        · rw [FinMap.get?_insert] at hj
          split_ifs at hj with hn
          · obtain rfl := Option.some.inj hj
            rw [hn]
            exact ⟨hold.1, (hk.noteId i hold.1).trans hold.2⟩
          · exact (h.conn c).holds_keeps hk (.inl hj)
        · cases hh
      locked := fun j hj => by cases hj
      closing := fun hcl => by cases hcl
      leaving := fun _ _ _ ht' => by cases ht'
      subscribing := fun _ _ _ hs => by cases hs
      broadcasting := fun _ _ _ _ hb => by cases hb
      fed := by
        intro n' i' hj
        rw [FinMap.get?_insert] at hj
        split_ifs at hj with hn
        · obtain rfl := Option.some.inj hj
          refine ⟨⟨i, seen, false⟩, by rw [hn]; exact FinMap.get?_insert_self .., rfl, .inr ⟨?_, ?_⟩⟩
          · rw [hsession, Function.update_self]
            exact Finset.mem_insert_self ..
          · intro b x hb hx hxi
            exact absurd hxi ((h.conn c).subscribing n i seen hsub b x hb hx)
        · obtain ⟨f, hf, hrest⟩ := Fed.keeps ((h.conn c).fed n' i' hj) hk
            ((h.conn c).holds n' i' (.inl hj)).1 (fun _ => ⟨n', hj⟩) rfl (List.Subset.refl _)
          refine ⟨f, ?_, hrest.1, ?_⟩
          · rw [FinMap.get?_insert_of_ne _ hn]
            exact hf
          · refine hrest.2.imp_right fun hin => ⟨hin.1, fun b x hb hx hxi hxd hxa => ?_⟩
            refine (hin.2 b x hb hx hxi hxd hxa).imp_left fun hb' => ?_
            have hb'' : b ∈ k.got := by rwa [hgot]
            exact hb'' }

/-! ### Broadcasts -/

theorem feeds_dropFeeds {f : Feed} :
    (k.dropFeeds i).feeds.get? n = some f ↔ ∃ f', k.feeds.get? n = some f' ∧ f'.drop i = f := by
  rw [Connection.dropFeeds, FinMap.get?_map, Option.map_eq_some_iff]

theorem Fed.dropFeeds (h : s.Fed d k n j) (i : ℕ) : s.Fed d (k.dropFeeds i) n j := by
  obtain ⟨f, hf, hfj, hor⟩ := h
  refine ⟨f.drop i, feeds_dropFeeds.mpr ⟨f, hf, rfl⟩, ?_, ?_⟩
  · rw [← hfj, Feed.drop]
    split_ifs <;> rfl
  · rw [Feed.drop]
    split_ifs with hfi
    · exact .inl rfl
    · exact hor

/-- The feed of a session that costs the connection a message. -/
theorem Fed.dropped (h : s.Fed d k n i) (s' : Server) : s'.Fed d (k.dropFeeds i) n i := by
  obtain ⟨f, hf, rfl, -⟩ := h
  refine ⟨f.drop f.session, feeds_dropFeeds.mpr ⟨f, hf, rfl⟩, ?_, .inl ?_⟩
  · rw [Feed.drop, if_pos rfl]
  · rw [Feed.drop, if_pos rfl]

theorem ConnOk.dropFeeds (h : s.ConnOk d k) (i : ℕ) : s.ConnOk d (k.dropFeeds i) :=
  { h with fed := fun n j hj => (h.fed n j hj).dropFeeds i }

theorem got_concat {msg : CollabServerMsg} :
    ({ k with sent := k.sent ++ [msg] } : Connection).got = k.got ++ msg.batch?.toList := by
  simp only [Connection.got, List.filterMap_append]
  cases hb : msg.batch? <;> simp [hb]

theorem ConnOk.offer (h : s.ConnOk d k) (msg : CollabServerMsg) (i : ℕ) :
    s.ConnOk d (k.offer msg i) := by
  unfold Connection.offer
  split_ifs
  · exact h.dropFeeds i
  · refine { h with fed := fun n j hj => ?_ }
    obtain ⟨f, hf, hfj, hor⟩ := h.fed n j hj
    refine ⟨f, hf, hfj, hor.imp_right fun ⟨hmem, hall⟩ => ⟨hmem, fun b x hb hx hxi hxd hxa => ?_⟩⟩
    refine (hall b x hb hx hxi hxd hxa).imp_left fun hb' => ?_
    rw [got_concat]
    exact List.mem_append_left _ hb'

theorem conns_broadcast {msg : CollabServerMsg} {skip : Option ℕ} {h : Hub} (d : ℕ) :
    ((h.broadcast i msg skip).conns d).task = (h.conns d).task := by
  unfold Hub.broadcast
  dsimp only
  split_ifs
  · exact Connection.task_offer
  · rfl

/-- A message that is no op batch is broadcast. -/
theorem Sound.broadcast (h : s.Sound) (i : ℕ) (msg : CollabServerMsg) (skip : Option ℕ) :
    Sound (s.rooms (s.broadcast i msg skip)) where
  registered := h.registered
  fresh := h.fresh
  conn d := by
    have hk : Keeps (d + 1) s (s.rooms (s.broadcast i msg skip)) :=
      { nextConnId := le_rfl
        nextSession := le_rfl
        noteId := fun _ _ => rfl
        locks := fun _ _ _ _ hl => hl
        members := fun _ _ _ hm => .inl hm
        kept := fun _ _ hx => hx
        added := fun _ _ hx => .inl hx
        pending := fun j b ⟨e, he⟩ => ⟨e, (congrArg Task.broadcasting (conns_broadcast e)).trans he⟩ }
    have hd := (h.conn d).keeps hk (Nat.ne_of_lt (Nat.lt_succ_self d))
    simp only [rooms, Hub.broadcast]
    split_ifs
    · exact hd.offer msg i
    · exact hd

theorem conns_dropSlow {h : Hub} {slow : Finset ℕ} (d : ℕ) :
    ((h.dropSlow i slow).conns d).task = (h.conns d).task := by
  unfold Hub.dropSlow
  dsimp only
  split_ifs <;> rfl

/-- The slow subscribers are removed. -/
theorem Sound.dropSlow (h : s.Sound) (i : ℕ) (slow : Finset ℕ) :
    Sound (s.rooms (s.dropSlow i slow)) := by
  set s' := s.rooms (s.dropSlow i slow) with hs'
  have hsession : ∀ j, (s'.sessions j).noteId = (s.sessions j).noteId ∧
      (s'.sessions j).applyLock = (s.sessions j).applyLock ∧
      (s'.sessions j).subscribers ⊆ (s.sessions j).subscribers ∧
      ∀ e, e ∉ slow ∨ j ≠ i → e ∈ (s.sessions j).subscribers → e ∈ (s'.sessions j).subscribers := by
    intro j
    simp only [hs', rooms, Hub.dropSlow, Hub.unsubscribe, Hub.sessions_setSession,
      Function.update_apply]
    split_ifs with hj
    · subst hj
      refine ⟨rfl, rfl, Finset.sdiff_subset, fun e he hmem => ?_⟩
      exact Finset.mem_sdiff.mpr ⟨hmem, he.resolve_right fun hne => hne rfl⟩
    · exact ⟨rfl, rfl, Finset.Subset.refl _, fun e _ hmem => hmem⟩
  have htask : ∀ e, (s'.conns e).task = (s.conns e).task := by
    intro e
    simp only [hs', rooms, Hub.dropSlow]
    split_ifs <;> rfl
  have hpending : ∀ j b, s.Pending j b → s'.Pending j b := by
    rintro j b ⟨e, he⟩
    exact ⟨e, (congrArg Task.broadcasting (htask e)).trans he⟩
  have hkeep : ∀ d n j, (d ∉ slow ∨ j ≠ i) → ∀ k, s.Fed d k n j → s'.Fed d k n j := by
    rintro d n j hd k ⟨f, hf, hfj, hor⟩
    refine ⟨f, hf, hfj, hor.imp_right fun hin => ⟨(hsession j).2.2.2 d hd hin.1, ?_⟩⟩
    exact fun b x hb hx hxi hxd hxa => (hin.2 b x hb hx hxi hxd hxa).imp_right (hpending j b)
  refine ⟨fun n j hr => ?_, fun j hj => ?_, fun d => ?_⟩
  · rw [(hsession j).1]
    exact h.registered n j hr
  · exact Finset.subset_empty.mp ((h.fresh j hj).subst (hsession j).2.2.1)
  · have hold := h.conn d
    have hother : ∀ k, k.task = (s.conns d).task → k.joined = (s.conns d).joined →
        (∀ n j, (s.conns d).joined.get? n = some j → s'.Fed d k n j) → s'.ConnOk d k := by
      rintro k ht hjoined hfed
      exact
        { live := by rw [ht, hjoined]; exact hold.live
          holds := by
            intro n j hh
            rw [Connection.Holds, ht, hjoined] at hh
            rw [(hsession j).1]
            exact hold.holds n j hh
          locked := by
            intro j hl
            rw [(hsession j).2.1]
            exact hold.locked j (ht ▸ hl)
          closing := by rw [ht, hjoined]; exact hold.closing
          leaving := by rw [ht, hjoined]; exact hold.leaving
          subscribing := by rw [ht]; exact hold.subscribing
          broadcasting := by rw [ht]; exact hold.broadcasting
          fed := by rw [hjoined]; exact hfed }
    simp only [hs', rooms, Hub.dropSlow]
    split_ifs with hslow
    · refine hother _ rfl rfl fun n j hj => ?_
      by_cases hji : j = i
      · exact hji ▸ (hold.fed n j hj).dropped s'
      · exact (hkeep d n j (.inr hji) _ (hold.fed n j hj)).dropFeeds i
    · exact hother _ rfl rfl fun n j hj => hkeep d n j (.inl hslow) _ (hold.fed n j hj)

section

variable {applied : List LineOp} {batch : ℕ}

theorem sessions_broadcastOp (j : ℕ) :
    ((s.broadcastOp c n i applied batch).sessions j).noteId = (s.sessions j).noteId ∧
      ((s.broadcastOp c n i applied batch).sessions j).applyLock = (s.sessions j).applyLock ∧
      ((s.broadcastOp c n i applied batch).sessions j).subscribers =
        (s.sessions j).subscribers := by
  simp only [broadcastOp, Hub.sessions_goto, Hub.sessions_broadcast, Hub.bumpSeq,
    Hub.sessions_setSession, Function.update_apply]
  split_ifs with hj
  · subst hj
    exact ⟨rfl, rfl, rfl⟩
  · exact ⟨rfl, rfl, rfl⟩

/-- The message of a batch. -/
def opMsg (s : Server) (c : ℕ) (n : Uuid) (i : ℕ) (applied : List LineOp) (batch : ℕ) :
    CollabServerMsg :=
  .op ((s.sessions i).seq + 1) n (s.conns c).userId applied batch

theorem conns_broadcastOp (d : ℕ) :
    (s.broadcastOp c n i applied batch).conns d =
      if d = c then { s.conns c with
        task := .opSlow n i applied batch ((s.bumpSeq i).slow i (some c)) }
      else if d ∈ (s.sessions i).subscribers then
        (s.conns d).offer (s.opMsg c n i applied batch) i
      else s.conns d := by
  simp only [broadcastOp, Hub.conns_goto, Function.update_apply]
  split_ifs with hd hmem
  · subst hd
    simp [Hub.broadcast, Hub.receivers, Hub.conns_bumpSeq]
  · simp [Hub.broadcast, Hub.receivers, Hub.bumpSeq, opMsg, Hub.setSession, hd, hmem]
  · simp [Hub.broadcast, Hub.receivers, Hub.bumpSeq, Hub.setSession, hmem]

theorem Sound.broadcastOp (h : s.Sound) (ht : (s.conns c).task = .opBroadcast n i applied batch) :
    Sound (s.rooms (s.broadcastOp c n i applied batch)) := by
  set s' := s.rooms (s.broadcastOp c n i applied batch) with hs'
  have hsession := @sessions_broadcastOp s c i n applied batch
  have hconns := @conns_broadcastOp s c i n applied batch
  have hbroadcasting : (s.conns c).task.broadcasting = some (i, batch) := by rw [ht]; rfl
  have hpending : ∀ j b, s.Pending j b → s'.Pending j b ∨ j = i ∧ b = batch := by
    rintro j b ⟨e, he⟩
    by_cases hec : e = c
    · rw [hec, hbroadcasting] at he
      obtain ⟨rfl, rfl⟩ : i = j ∧ batch = b := by simpa using he
      exact .inr ⟨rfl, rfl⟩
    · refine .inl ⟨e, ?_⟩
      rw [hs', rooms, hconns e, if_neg hec]
      split_ifs
      · rw [Connection.task_offer, he]
      · exact he
  -- a batch that is no longer pending is in the queues of all but its author
  have hfed : ∀ d k n' j, s.Fed d k n' j → (d ≠ c → j = i → d ∈ (s.sessions i).subscribers →
      batch ∈ k.got) → s'.Fed d k n' j := by
    rintro d k n' j ⟨f, hf, hfj, hor⟩ hgot
    refine ⟨f, hf, hfj, hor.imp_right fun hin => ⟨(hsession j).2.2.symm ▸ hin.1, ?_⟩⟩
    intro b x hb hx hxj hxd hxa
    rcases hin.2 b x hb hx hxj hxd hxa with hb' | hb'
    · exact .inl hb'
    rcases hpending j b hb' with hb' | ⟨rfl, rfl⟩
    · exact .inr hb'
    · refine .inl (hgot (fun hdc => ?_) rfl hin.1)
      obtain ⟨y, hy, hyc, -⟩ := (h.conn c).broadcasting n j applied b ht
      obtain rfl := Option.some.inj (hx.symm.trans hy)
      exact hxd (hyc.trans hdc.symm)
  have hother : ∀ d k, k.task = (s.conns d).task → k.joined = (s.conns d).joined →
      (∀ n' j, (s.conns d).joined.get? n' = some j → s'.Fed d k n' j) → s'.ConnOk d k := by
    intro d k htask hjoined hfed
    have hold := h.conn d
    exact
      { live := by rw [htask, hjoined]; exact hold.live
        holds := by
          intro n' j hh
          rw [Connection.Holds, htask, hjoined] at hh
          exact ⟨(hold.holds n' j hh).1, (hsession j).1.trans (hold.holds n' j hh).2⟩
        locked := fun j hl => (hsession j).2.1.trans (hold.locked j (htask ▸ hl))
        closing := by rw [htask, hjoined]; exact hold.closing
        leaving := by rw [htask, hjoined]; exact hold.leaving
        subscribing := by rw [htask]; exact hold.subscribing
        broadcasting := by rw [htask]; exact hold.broadcasting
        fed := by rw [hjoined]; exact hfed }
  refine ⟨fun n' j hr => ?_, fun j hj => ?_, fun d => ?_⟩
  · exact ⟨(h.registered n' j hr).1, (hsession j).1.trans (h.registered n' j hr).2⟩
  · exact (hsession j).2.2.trans (h.fresh j hj)
  rw [hs', rooms, hconns d]
  split_ifs with hd hmem
  · subst hd
    have hc := hother d (s.conns d) rfl rfl fun n' j hj =>
      hfed d _ n' j ((h.conn d).fed n' j hj) fun hne => absurd rfl hne
    exact
      { live := fun _ => hc.live (.inl (ne_closed ht (by simp)))
        holds := fun n' j hh => hc.holds n' j (hh.imp_right fun hh => by rw [ht]; exact hh)
        locked := fun j hl => hc.locked j (by rw [ht]; exact hl)
        closing := fun hcl => by cases hcl
        leaving := fun _ _ _ ht' => by cases ht'
        subscribing := fun _ _ _ hs => by cases hs
        broadcasting := fun _ _ _ _ hb => by cases hb
        fed := hc.fed }
  · unfold Connection.offer
    split_ifs
    · refine hother d _ rfl rfl fun n' j hj => ?_
      by_cases hji : j = i
      · exact hji ▸ ((h.conn d).fed n' j hj).dropped s'
      · exact (hfed d _ n' j ((h.conn d).fed n' j hj) fun _ hne => absurd hne hji).dropFeeds i
    · refine hother d _ rfl rfl fun n' j hj => hfed d _ n' j ?_ fun _ _ _ => ?_
      · obtain ⟨f, hf, hfj, hor⟩ := (h.conn d).fed n' j hj
        refine ⟨f, hf, hfj, hor.imp_right fun hin => ⟨hin.1, fun b x hb hx hxi hxd hxa => ?_⟩⟩
        refine (hin.2 b x hb hx hxi hxd hxa).imp_left fun hb' => ?_
        rw [got_concat]
        exact List.mem_append_left _ hb'
      · rw [got_concat]
        exact List.mem_append_right _ (List.mem_singleton_self _)
  · exact hother d _ rfl rfl fun n' j hj =>
      hfed d _ n' j ((h.conn d).fed n' j hj) fun _ _ hin => absurd hin hmem

end

theorem Sound.unsubscribe {rest : Option (FinMap Uuid ℕ)} (h : s.Sound)
    (ht : (s.conns c).task = .unsubscribe n i rest) :
    Sound (s.rooms ((s.unsubscribe i {c}).goto c (.clearPresence n rest))) := by
  set s' := s.rooms ((s.unsubscribe i {c}).goto c (.clearPresence n rest)) with hs'
  have hsession : s'.sessions = Function.update s.sessions i { s.sessions i with
      subscribers := (s.sessions i).subscribers \ {c} } := rfl
  have hk : Keeps c s s' := by
    refine .of_session hsession rfl (fun e _ hlock => hlock) (fun e he => ?_) rfl rfl rfl rfl
      fun p hp => by rw [ht] at hp; cases hp
    by_cases hec : e = c
    · exact .inr ⟨hec, (h.conn c).leaving n i rest ht⟩
    · exact .inl (Finset.mem_sdiff.mpr ⟨he, Finset.notMem_singleton.mpr hec⟩)
  refine h.act hk rfl (h.registered_of rfl le_rfl hk.noteId) ?_
    ((h.conn c).act_plain hk (ne_closed ht (by simp)) rfl rfl rfl rfl ?_ (by simp))
  · intro j hj
    rw [hsession, Function.update_apply]
    split_ifs with hji
    · have hempty : (s.sessions i).subscribers = ∅ := h.fresh i (hji ▸ hj)
      rw [hempty]
      rfl
    · exact h.fresh j hj
  · rw [ht]
    exact id

theorem Sound.dropIfEmpty {rest : Option (FinMap Uuid ℕ)} (h : s.Sound)
    (ht : (s.conns c).task = .dropIfEmpty n rest) :
    Sound (s.rooms ((s.dropIfEmpty n).goto c (afterLeave rest))) := by
  set s' := s.rooms ((s.dropIfEmpty n).goto c (afterLeave rest)) with hs'
  have hrooms : s'.sessions = s.sessions ∧ s'.nextSession = s.nextSession ∧
      s'.nextConnId = s.nextConnId ∧
      s'.conns = Function.update s.conns c { s.conns c with task := afterLeave rest } ∧
      ∀ n' j, s'.registry.get? n' = some j → s.registry.get? n' = some j := by
    simp only [hs', rooms, Hub.dropIfEmpty]
    split
    · split_ifs
      · exact ⟨rfl, rfl, rfl, rfl, fun n' j hj => (FinMap.get?_erase_singleton.mp hj).2⟩
      · exact ⟨rfl, rfl, rfl, rfl, fun _ _ hj => hj⟩
    · exact ⟨rfl, rfl, rfl, rfl, fun _ _ hj => hj⟩
  obtain ⟨hsessions, hnextSession, hnextConnId, hconns, hregistry⟩ := hrooms
  have hk : Keeps c s s' :=
    .of_conn hsessions hnextSession hnextConnId rfl hconns fun p hp => by rw [ht] at hp; cases hp
  refine h.act hk hconns (fun n' j hr => ?_) (fun j hj => ?_)
    ((h.conn c).act_plain hk (ne_closed ht (by simp)) rfl rfl rfl (afterLeave_plain rest).1 ?_ ?_)
  · rw [hsessions, hnextSession]
    exact h.registered n' j (hregistry n' j hr)
  · rw [hsessions]
    exact h.fresh j (hnextSession ▸ hj)
  · rw [ht, afterLeave_closing]
    exact id
  · cases rest with
    | none => simp [afterLeave]
    | some rest => simp [afterLeave]

/-- **Every step keeps the invariant.** -/
theorem Sound.step {l : ServerStep} (h : s.Sound) (hstep : Stepped core instanceId s l s') :
    s'.Sound := by
  cases hstep with
  | move hc hm hread => exact h.move hc hm
  | write => exact h.write
  | connect userId deviceId => exact h.connect userId deviceId
  | joinExisting ht hr => exact h.joinExisting ht hr
  | create ht hr => exact h.create ht
  | joinAcquire ht hfree =>
    exact h.acquire hfree (ne_closed ht (by simp)) (by rw [ht]; rfl) rfl rfl (by rw [ht]; rfl) rfl
      rfl rfl (by simp)
  | opAcquire ht hfree =>
    exact h.acquire hfree (ne_closed ht (by simp)) (by rw [ht]; rfl) rfl rfl (by rw [ht]; rfl) rfl
      rfl rfl (by simp)
  | readLines ht => exact h.readLines ht
  | subscribed ht => exact h.subscribed ht
  | @release c i k locks hl hf hm =>
    refine h.release hl ?_ hm rfl rfl (by simp)
    cases hb : (s.conns c).task.broadcasting with
    | none => rfl
    | some p => cases (Task.broadcasting_fanout hb).symm.trans hf
  | commitNothing ht hm hrun hnone => exact h.commitNothing ht hm hnone
  | commit ht hm hrun hsome => exact h.commit ht hm
  | broadcastOp ht hl => exact h.broadcastOp ht
  | @opSlow c n i applied batch slow ht =>
    have htask : ((s.rooms (s.dropSlow i slow)).conns c).task = .opSlow n i applied batch slow :=
      (conns_dropSlow c).trans ht
    have hrelease : Sound { s.rooms (s.dropSlow i slow) with
        orderLocks := s.orderLocks
        toHub := (((s.dropSlow i slow).setConn c ((s.dropSlow i slow).conns c)).unlock i).goto c
          (.opEvent n applied batch) } :=
      (h.dropSlow i slow).release (by rw [htask]; rfl) (by rw [htask]; rfl) (.refl _) rfl rfl
        (by simp)
    rwa [setConn_self] at hrelease
  | opEvent ht =>
    exact h.goto rfl (ne_closed ht (by simp)) (by rw [ht]; rfl) rfl (by simp [Task.closing])
      (by simp)
  | opNotify ht hl =>
    exact h.goto rfl (ne_closed ht (by simp)) (by rw [ht]; rfl) rfl (by simp [Task.closing])
      (by simp)
  | opAbandon ht hl =>
    exact h.goto rfl (fun hcl => by rw [hcl] at ht; cases ht) hl rfl (by simp [Task.closing])
      (by simp)
  | @presence c n i after ht =>
    have htask : ((s.rooms (s.broadcast i (.presence n) none)).conns c).task = .presence n i after :=
      (conns_broadcast c).trans ht
    exact (h.broadcast i (.presence n) none).goto rfl (ne_closed htask (by simp))
      (by rw [htask]; rfl) rfl (by rw [htask]; exact id) (by simp)
  | @presenceSlow c i slow after ht =>
    have htask : ((s.rooms (s.dropSlow i slow)).conns c).task = .presenceSlow i slow after :=
      (conns_dropSlow c).trans ht
    exact (h.dropSlow i slow).goto rfl (ne_closed htask (by simp)) (by rw [htask]; rfl)
      after.plain_task.1 (by rw [htask, after.closing_task]; exact id) after.task_ne_unsubscribe
  | unsubscribe ht => exact h.unsubscribe ht
  | dropIfEmpty ht hl => exact h.dropIfEmpty ht

end

end Server

end KeeplinSrv
