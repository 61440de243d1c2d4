import KeeplinSrv.Live.Settle
import KeeplinSrv.Live.Visits

/-!
# The registry does not leak

The registry holds the session of a note until a `drop_if_empty` finds it without
subscribers (`collab.rs`, lines 85–108). Nothing looks for sessions that have been
forgotten: whoever is in a note, enters or leaves it has to come to the `drop_if_empty`
at the end.

Results:
* `registry_attended`: every note in the registry has such a connection, in every state of
  a run, exactly when no `Join` has failed between `get_or_create` and the subscription
  while nobody else was there; and after such a run the registry is empty once all
  connections have closed.
-/

namespace KeeplinSrv

open Common

/-- The note that the handler is doing something about. -/
def Visit.note? : Visit → Option Uuid
  | .nowhere => none
  | .entering n _ | .touching n | .unsubscribing n _ | .clearing n | .dropping n => some n

/-- The connection is in the note, or has still to enter or to leave it. -/
def Connection.attends (k : Connection) (n : Uuid) : Bool :=
  (k.joined.get? n).isSome || k.task.rest.any (fun rest => (rest.get? n).isSome) ||
    decide (k.task.visit.note? = some n)

/-- The connection will unsubscribe from the session. -/
def Connection.Within (k : Connection) (n : Uuid) (i : ℕ) : Prop :=
  k.joined.get? n = some i ∨ (∃ rest, k.task.rest = some rest ∧ rest.get? n = some i) ∨
    k.task.visit = .unsubscribing n i

/-- The socket has closed, and nothing is left to be done. -/
def Task.isClosed : Task → Bool
  | .closed => true
  | _ => false

def Hub.AllClosed (h : Hub) : Prop := ∀ c < h.nextConnId, (h.conns c).task.isClosed = true

instance (h : Hub) : Decidable h.AllClosed := inferInstanceAs (Decidable (∀ _ < _, _))

/-- Somebody will come to the `drop_if_empty` of every note in the registry. -/
def Hub.Attended (h : Hub) : Prop :=
  ∀ n ∈ h.registry.keys, ∃ c < h.nextConnId, (h.conns c).attends n = true

/-- A `Join` fails that nobody else would clean up after. -/
def Server.strands (s : Server) (l : ServerStep) : Bool :=
  (s.joinFails l).any fun n => (s.registry.get? n).isSome && (List.range s.nextConnId).all fun c =>
    if l.conn = some c then ((s.conns c).joined.get? n).isNone else !(s.conns c).attends n

/-- Where a connection is, among the sessions of its instance. -/
structure Hub.Houses (h : Hub) (c : ℕ) (k : Connection) : Prop where
  closing : ∀ rest, k.task.rest = some rest → k.joined = .empty
  touching : ∀ n, k.task.visit = .touching n → (k.joined.get? n).isSome
  joined : ∀ n i, k.joined.get? n = some i → i < h.nextSession
  entered : ∀ n i, k.task.visit = .entering n i →
    i < h.nextSession ∧ ∀ m, h.registry.get? m = some i → m = n
  entering : ∀ n i j, k.task.visit = .entering n i → k.joined.get? n = some j → j ≠ i →
    h.registry.get? n ≠ some j
  member : ∀ n i, h.registry.get? n = some i → c ∈ (h.sessions i).subscribers → k.Within n i

structure Hub.Housed (h : Hub) : Prop where
  absent : ∀ c, h.nextConnId ≤ c → (h.conns c).task = .closed
  registered : ∀ n i, h.registry.get? n = some i → i < h.nextSession
  injective : ∀ n m i, h.registry.get? n = some i → h.registry.get? m = some i → n = m
  conn : ∀ c, h.Houses c (h.conns c)

/-- What the step of another connection does to the sessions that connection `c` is in. -/
structure Hub.Evolves (c : ℕ) (h h' : Hub) : Prop where
  registry : ∀ n i, h'.registry.get? n = some i → h.registry.get? n = some i ∨
    h.nextSession ≤ i ∧ i < h'.nextSession ∧ (h'.sessions i).subscribers = ∅
  subscribers : ∀ i, c ∈ (h'.sessions i).subscribers → c ∈ (h.sessions i).subscribers
  nextSession : h.nextSession ≤ h'.nextSession

theorem Connection.Within.attends {k : Connection} {n : Uuid} {i : ℕ} (h : k.Within n i) :
    k.attends n = true := by
  unfold Connection.attends
  rcases h with h | ⟨rest, hrest, h⟩ | h
  · simp [h]
  · simp [hrest, h]
  · simp [h, Visit.note?]

theorem Connection.attends_iff {k : Connection} {n : Uuid} :
    k.attends n = true ↔ (k.joined.get? n).isSome ∨
      (∃ rest, k.task.rest = some rest ∧ (rest.get? n).isSome) ∨ k.task.visit.note? = some n := by
  unfold Connection.attends
  cases k.task.rest <;> simp [or_assoc]

/-- A connection that is neither in a note nor about to enter or to leave one. -/
theorem Connection.attends_eq_false {k : Connection} {n : Uuid} :
    k.attends n = false ↔ k.joined.get? n = none ∧
      (∀ rest, k.task.rest = some rest → rest.get? n = none) ∧ k.task.visit.note? ≠ some n := by
  unfold Connection.attends
  cases k.task.rest <;> simp [and_assoc]

theorem Server.strands_iff {s : Server} {l : ServerStep} :
    s.strands l = true ↔ ∃ n, s.joinFails l = some n ∧ (s.registry.get? n).isSome ∧
      ∀ c < s.nextConnId, if l.conn = some c then (s.conns c).joined.get? n = none
        else (s.conns c).attends n = false := by
  unfold Server.strands
  simp only [Option.any_eq_true, Bool.and_eq_true, List.all_eq_true, List.mem_range]
  refine exists_congr fun n => and_congr_right fun _ => and_congr_right fun _ =>
    forall₂_congr fun c _ => ?_
  split_ifs <;> simp

theorem Task.eq_closed {t : Task} (h : t.isClosed = true) : t = .closed := by
  cases t <;> first | rfl | cases h

theorem Task.rest_of_entering {t : Task} {n : Uuid} {i : ℕ} (h : t.visit = .entering n i) :
    t.rest = none := by
  cases t with
  | announce m after | presence m j after | presenceSlow j slow after => cases after <;> cases h
  | _ => first | rfl | cases h

/-- These notions look only at where the connection is. -/
theorem Server.Whereabouts.within {k k' : Connection} (hk : Whereabouts k k' k.task.visit)
    {n : Uuid} {i : ℕ} : k'.Within n i ↔ k.Within n i := by
  unfold Connection.Within
  rw [hk.visit, hk.rest, hk.joined]

theorem Server.Whereabouts.attends {k k' : Connection} (hk : Whereabouts k k' k.task.visit)
    {n : Uuid} : k'.attends n = k.attends n := by
  unfold Connection.attends
  rw [hk.visit, hk.rest, hk.joined]

theorem Server.Whereabouts.of_eq {k k' : Connection} (ht : k'.task = k.task)
    (hj : k'.joined = k.joined) : Whereabouts k k' k.task.visit :=
  ⟨by rw [ht], by rw [ht], hj⟩

namespace Hub

section

variable {h h' : Hub} {c : ℕ} {n : Uuid} {k k' : Connection} {v : Visit}

/-- Before any connection has come. -/
theorem housed_init : Hub.init.Housed where
  absent c _ := rfl
  registered n i hr := by cases hr
  injective n m i hr := by cases hr
  conn c :=
    { closing := fun rest _ => rfl
      touching := fun n hv => by cases hv
      joined := fun n i hj => by cases hj
      entered := fun n i hv => by cases hv
      entering := fun n i j hv => by cases hv
      member := fun n i hr => by cases hr }

/-- A connection that is closed attends to nothing. -/
theorem Housed.attends_closed (hh : h.Housed) (hc : (h.conns c).task = .closed) :
    (h.conns c).attends n = false := by
  have hrest : (h.conns c).task.rest = some .empty := by rw [hc]; rfl
  rw [Connection.attends_eq_false, (hh.conn c).closing _ hrest, hrest, hc]
  exact ⟨rfl, fun rest hr => Option.some.inj hr ▸ rfl, by simp [Task.visit, Visit.note?]⟩

theorem Housed.lt_of_attends (hh : h.Housed) (ha : (h.conns c).attends n = true) :
    c < h.nextConnId := by
  by_contra hc
  rw [hh.attends_closed (hh.absent c (not_lt.mp hc))] at ha
  cases ha

/-- Somebody who attends to a note is there, if he is a connection at all. -/
theorem Housed.attended (hh : h.Housed)
    (ha : ∀ n i, h.registry.get? n = some i → ∃ c, (h.conns c).attends n = true) : h.Attended := by
  intro n hn
  obtain ⟨i, hi⟩ := Option.isSome_iff_exists.mp ((h.registry.mem_keys n).mp hn)
  obtain ⟨c, hc⟩ := ha n i hi
  exact ⟨c, hh.lt_of_attends hc, hc⟩

theorem Attended.exists_attends (ha : h.Attended) {i : ℕ} (hi : h.registry.get? n = some i) :
    ∃ c, (h.conns c).attends n = true := by
  obtain ⟨c, -, hc⟩ := ha n ((h.registry.mem_keys n).mpr (by rw [hi]; rfl))
  exact ⟨c, hc⟩

theorem Shrinks.evolves (hsubs : h.Shrinks h') (hregistry : h'.registry = h.registry) (c : ℕ) :
    h.Evolves c h' :=
  ⟨fun _ _ hi => .inl (hregistry ▸ hi), fun i hc => hsubs.subscribers i hc, hsubs.nextSession⟩

/-- The session that a note had is the one it has, unless it is new. -/
theorem Evolves.registry_ne (he : h.Evolves c h') {j : ℕ} (hj : j < h.nextSession)
    (hne : h.registry.get? n ≠ some j) : h'.registry.get? n ≠ some j := by
  intro hi
  rcases he.registry n j hi with hi | ⟨hle, -⟩
  · exact hne hi
  · omega

/-- A session that the registry holds for no other note. -/
theorem Evolves.entered (he : h.Evolves c h') {i : ℕ}
    (hi : i < h.nextSession ∧ ∀ m, h.registry.get? m = some i → m = n) :
    i < h'.nextSession ∧ ∀ m, h'.registry.get? m = some i → m = n := by
  refine ⟨hi.1.trans_le he.nextSession, fun m hm => ?_⟩
  by_contra hne
  exact he.registry_ne hi.1 (fun h => hne (hi.2 m h)) hm

/-- A connection that stays where it is. -/
theorem Houses.stay (hh : h.Houses c k) (he : h.Evolves c h')
    (hk : Server.Whereabouts k k' k.task.visit) : h'.Houses c k' where
  closing rest hr := by
    rw [hk.joined]
    exact hh.closing rest (hk.rest ▸ hr)
  touching n hv := by
    rw [hk.joined]
    exact hh.touching n (hk.visit ▸ hv)
  joined n i hj := (hh.joined n i (hk.joined ▸ hj)).trans_le he.nextSession
  entered n i hv := he.entered (hh.entered n i (hk.visit ▸ hv))
  entering n i j hv hj hne := by
    rw [hk.visit] at hv
    rw [hk.joined] at hj
    exact he.registry_ne (hh.joined n j hj) (hh.entering n i j hv hj hne)
  member n i hi hc := by
    rw [hk.within]
    rcases he.registry n i hi with hi | ⟨-, -, hnew⟩
    · exact hh.member n i hi (he.subscribers i hc)
    · simp [hnew] at hc

/-- A connection that goes on with a note, and does not enter it. -/
theorem Houses.go (hh : h.Houses c k) (he : h.Evolves c h') (hk : Server.Whereabouts k k' v)
    (hv : ∀ n i, v ≠ .entering n i) (htouch : ∀ n, v = .touching n → (k.joined.get? n).isSome)
    (hleft : ∀ n i, k.task.visit = .unsubscribing n i → c ∉ (h'.sessions i).subscribers) :
    h'.Houses c k' where
  closing rest hr := by
    rw [hk.joined]
    exact hh.closing rest (hk.rest ▸ hr)
  touching n hn := by
    rw [hk.joined]
    exact htouch n (hk.visit.symm.trans hn)
  joined n i hj := (hh.joined n i (hk.joined ▸ hj)).trans_le he.nextSession
  entered n i hn := absurd (hk.visit.symm.trans hn) (hv n i)
  entering n i j hn := absurd (hk.visit.symm.trans hn) (hv n i)
  member n i hi hc := by
    unfold Connection.Within
    rw [hk.joined, hk.rest]
    rcases he.registry n i hi with hi | ⟨-, -, hnew⟩
    · rcases hh.member n i hi (he.subscribers i hc) with hj | hr | hu
      · exact .inl hj
      · exact .inr (.inl hr)
      · exact absurd hc (hleft n i hu)
    · simp [hnew] at hc

/-- Nothing happens to the connections, and no session gets a subscriber. -/
theorem Housed.shrinks (hh : h.Housed) (htask : ∀ c, (h'.conns c).task = (h.conns c).task)
    (hjoined : ∀ c, (h'.conns c).joined = (h.conns c).joined)
    (hnext : h'.nextConnId = h.nextConnId) (hregistry : h'.registry = h.registry)
    (hsubs : h.Shrinks h') : h'.Housed where
  absent c hc := by rw [htask, hh.absent c (hnext ▸ hc)]
  registered n i hr := (hh.registered n i (hregistry ▸ hr)).trans_le hsubs.nextSession
  injective := hregistry ▸ hh.injective
  conn c := (hh.conn c).stay (hsubs.evolves hregistry c) (.of_eq (htask c) (hjoined c))

theorem Attended.congr (ha : h.Attended) (htask : ∀ c, (h'.conns c).task = (h.conns c).task)
    (hjoined : ∀ c, (h'.conns c).joined = (h.conns c).joined)
    (hnext : h'.nextConnId = h.nextConnId) (hregistry : h'.registry = h.registry) :
    h'.Attended := by
  intro n hn
  obtain ⟨c, hc, hattends⟩ := ha n (hregistry ▸ hn)
  refine ⟨c, hnext ▸ hc, ?_⟩
  rw [(Server.Whereabouts.of_eq (htask c) (hjoined c)).attends, hattends]

end

end Hub

namespace Server

section

variable {core : KeeplinCore} {instanceId : Uuid} {s s' : Server} {c d i : ℕ} {l : ServerStep}
  {n userId deviceId : Uuid}

/-- What a connection's turn does to the sessions that the others are in; and to those that
    it is in itself, unless it has just joined one. -/
theorem Visits.evolves (hv : Visits c l s s')
    (hd : d ≠ c ∨ ∀ n, (s'.conns c).task.visit ≠ .touching n) : s.Evolves d s'.toHub := by
  cases hv with
  | stay _ hregistry hsubs | abandon _ _ _ hregistry hsubs | cursor _ _ _ hregistry hsubs
  | touch _ _ _ hregistry hsubs | leave _ _ _ _ _ hregistry hsubs
  | close _ _ _ _ hregistry hsubs | pick _ _ _ _ _ _ hregistry hsubs
  | unsubscribe _ _ hregistry hsubs _ | clear _ _ _ hregistry hsubs =>
    exact hsubs.evolves hregistry d
  | @enter n i _ _ hold hregistry hsubs =>
    refine ⟨fun m j hj => ?_, fun j hj => hsubs.subscribers j hj, hsubs.nextSession⟩
    rw [hregistry] at hj
    split_ifs at hj with hm
    · obtain rfl := Option.some.inj hj
      rcases hold with hold | ⟨-, rfl, hnew⟩
      · exact .inl (hm ▸ hold)
      · exact .inr ⟨le_rfl, hnew⟩
    · exact .inl hj
  | @join n i _ hvisit _ _ hregistry hnext hsubs =>
    refine ⟨fun m j hj => .inl (hregistry ▸ hj), fun j hj => ?_, hnext.ge⟩
    rcases hsubs j d hj with hj | ⟨rfl, -⟩
    · exact hj
    · exact absurd hvisit (hd.resolve_left (fun h => h rfl) n)
  | drop _ _ hregistry hsubs =>
    refine ⟨fun m j hj => ?_, fun j hj => hsubs.subscribers j hj, hsubs.nextSession⟩
    rcases hregistry with ⟨hregistry, -⟩ | hregistry
    · exact .inl (hregistry ▸ hj)
    · rw [hregistry] at hj
      exact .inl (FinMap.get?_erase_singleton.mp hj).2

theorem houses_enter (hh : s.Houses c (s.conns c)) (he : s.Evolves c s'.toHub)
    (hk : Whereabouts (s.conns c) (s'.conns c) (.entering n i))
    (hi : i < s'.nextSession ∧ ∀ m, s'.registry.get? m = some i → m = n)
    (hregistry : s'.registry.get? n = some i) (hbefore : (s.conns c).task.visit = .nowhere) :
    s'.Houses c (s'.conns c) where
  closing rest hr := by
    rw [hk.joined]
    exact hh.closing rest (hk.rest ▸ hr)
  touching m hm := by cases hk.visit.symm.trans hm
  joined m j hj := (hh.joined m j (hk.joined ▸ hj)).trans_le he.nextSession
  entered m j hm := by
    cases hk.visit.symm.trans hm
    exact hi
  entering m j j' hm _ hne := by
    cases hk.visit.symm.trans hm
    rw [hregistry]
    exact fun h => hne (Option.some.inj h).symm
  member m j hj hc := by
    unfold Connection.Within
    rw [hk.joined, hk.rest]
    rcases he.registry m j hj with hj | ⟨-, -, hnew⟩
    · rcases hh.member m j hj (he.subscribers j hc) with h | h | h
      · exact .inl h
      · exact .inr (.inl h)
      · cases hbefore.symm.trans h
    · simp [hnew] at hc

theorem houses_join (hh : s.Houses c (s.conns c))
    (hbefore : (s.conns c).task.visit = .entering n i)
    (hvisit : (s'.conns c).task.visit = .touching n)
    (hrest : (s'.conns c).task.rest = (s.conns c).task.rest)
    (hjoined : (s'.conns c).joined = (s.conns c).joined.insert n i)
    (hregistry : s'.registry = s.registry) (hnext : s'.nextSession = s.nextSession)
    (hsubs : ∀ j, c ∈ (s'.sessions j).subscribers → c ∈ (s.sessions j).subscribers ∨ j = i) :
    s'.Houses c (s'.conns c) where
  closing rest hr := by
    rw [hrest, Task.rest_of_entering hbefore] at hr
    cases hr
  touching m hm := by
    obtain rfl : n = m := by simpa using hvisit.symm.trans hm
    simp [hjoined]
  joined m j hj := by
    rw [hjoined, FinMap.get?_insert] at hj
    rw [hnext]
    split_ifs at hj
    · exact Option.some.inj hj ▸ (hh.entered n i hbefore).1
    · exact hh.joined m j hj
  entered m j hm := by cases hvisit.symm.trans hm
  entering m j j' hm := by cases hvisit.symm.trans hm
  member m j hj hc := by
    unfold Connection.Within
    rw [hjoined, hrest]
    rw [hregistry] at hj
    by_cases hji : j = i
    · obtain rfl := hji
      obtain rfl := (hh.entered n j hbefore).2 m hj
      exact .inl (FinMap.get?_insert_self _ _ _)
    · rcases hh.member m j hj ((hsubs j hc).resolve_right hji) with h | h | h
      · refine .inl ?_
        rw [FinMap.get?_insert_of_ne _ (fun hm => ?_), h]
        obtain rfl := hm
        exact hh.entering m i j hbefore h hji hj
      · exact .inr (.inl h)
      · cases hbefore.symm.trans h

/-- The connection takes a note out of `joined`, or all of them. -/
theorem houses_leave (hh : s.Houses c (s.conns c)) (he : s.Evolves c s'.toHub)
    (hbefore : (s.conns c).task.Elsewhere) (hin : (s.conns c).joined.get? n = some i)
    (hvisit : (s'.conns c).task.visit = .unsubscribing n i)
    (hrest : (s'.conns c).task.rest = none)
    (hjoined : (s'.conns c).joined = (s.conns c).joined.erase {n}) :
    s'.Houses c (s'.conns c) where
  closing rest hr := by cases hrest.symm.trans hr
  touching m hm := by cases hvisit.symm.trans hm
  joined m j hj := by
    rw [hjoined, FinMap.get?_erase_singleton] at hj
    exact (hh.joined m j hj.2).trans_le he.nextSession
  entered m j hm := by cases hvisit.symm.trans hm
  entering m j j' hm := by cases hvisit.symm.trans hm
  member m j hj hc := by
    unfold Connection.Within
    rw [hjoined, hrest, hvisit]
    rcases he.registry m j hj with hj | ⟨-, -, hnew⟩
    · rcases hh.member m j hj (he.subscribers j hc) with h | ⟨rest, hr, -⟩ | h
      · by_cases hm : m = n
        · obtain rfl := hm
          obtain rfl := Option.some.inj (hin.symm.trans h)
          exact .inr (.inr rfl)
        · exact .inl (FinMap.get?_erase_singleton.mpr ⟨hm, h⟩)
      · cases hbefore.2.symm.trans hr
      · cases hbefore.1.symm.trans h
    · simp [hnew] at hc

theorem houses_close (hh : s.Houses c (s.conns c)) (he : s.Evolves c s'.toHub)
    (hbefore : (s.conns c).task.Elsewhere) (hvisit : (s'.conns c).task.visit = .nowhere)
    (hrest : (s'.conns c).task.rest = some (s.conns c).joined)
    (hjoined : (s'.conns c).joined = .empty) : s'.Houses c (s'.conns c) where
  closing rest _ := hjoined
  touching m hm := by cases hvisit.symm.trans hm
  joined m j hj := by
    rw [hjoined] at hj
    cases hj
  entered m j hm := by cases hvisit.symm.trans hm
  entering m j j' hm := by cases hvisit.symm.trans hm
  member m j hj hc := by
    rcases he.registry m j hj with hj | ⟨-, -, hnew⟩
    · rcases hh.member m j hj (he.subscribers j hc) with h | ⟨rest, hr, -⟩ | h
      · exact .inr (.inl ⟨_, hrest, h⟩)
      · cases hbefore.2.symm.trans hr
      · cases hbefore.1.symm.trans h
    · simp [hnew] at hc

/-- A disconnect goes on to the next note. -/
theorem houses_pick {rest : FinMap Uuid ℕ} (hh : s.Houses c (s.conns c))
    (he : s.Evolves c s'.toHub) (hbefore : (s.conns c).task.visit = .nowhere)
    (hleaving : (s.conns c).task.rest = some rest) (hin : rest.get? n = some i)
    (hvisit : (s'.conns c).task.visit = .unsubscribing n i)
    (hrest : (s'.conns c).task.rest = some (rest.erase {n}))
    (hjoined : (s'.conns c).joined = (s.conns c).joined) : s'.Houses c (s'.conns c) where
  closing _ _ := by rw [hjoined, hh.closing rest hleaving]
  touching m hm := by cases hvisit.symm.trans hm
  joined m j hj := (hh.joined m j (hjoined ▸ hj)).trans_le he.nextSession
  entered m j hm := by cases hvisit.symm.trans hm
  entering m j j' hm := by cases hvisit.symm.trans hm
  member m j hj hc := by
    unfold Connection.Within
    rw [hjoined, hrest, hvisit]
    rcases he.registry m j hj with hj | ⟨-, -, hnew⟩
    · rcases hh.member m j hj (he.subscribers j hc) with h | ⟨rest', hr, h⟩ | h
      · exact .inl h
      · obtain rfl := Option.some.inj (hleaving.symm.trans hr)
        by_cases hm : m = n
        · obtain rfl := hm
          obtain rfl := Option.some.inj (hin.symm.trans h)
          exact .inr (.inr rfl)
        · exact .inr (.inl ⟨_, rfl, FinMap.get?_erase_singleton.mpr ⟨hm, h⟩⟩)
      · cases hbefore.symm.trans h
    · simp [hnew] at hc

/-- The session of a note that is entered is that of no other. -/
theorem registry_enter (hh : s.Housed) {P : Prop} (hold : s.registry.get? n = some i ∨
      s.registry.get? n = none ∧ i = s.nextSession ∧ P)
    (hregistry : ∀ m, s'.registry.get? m = if m = n then some i else s.registry.get? m) {m : Uuid}
    (hm : s'.registry.get? m = some i) : m = n := by
  by_contra hne
  rw [hregistry, if_neg hne] at hm
  rcases hold with hold | ⟨-, rfl, -⟩
  · exact hne (hh.injective m n i hm hold)
  · exact absurd (hh.registered m _ hm) (lt_irrefl _)

/-- Wherever its own turn takes a connection. -/
theorem Visits.houses (hh : s.Housed) (hv : Visits c l s s') : s'.Houses c (s'.conns c) := by
  have hc := hh.conn c
  cases hv with
  | stay hk hregistry hsubs => exact hc.stay (hsubs.evolves hregistry c) hk
  | @enter n i hbefore hk hold hregistry hsubs =>
    have he := Visits.evolves (.enter hbefore hk hold hregistry hsubs : Visits c l s s') (d := c)
      (.inr fun n hn => by cases hk.visit.symm.trans hn)
    have hi : s'.registry.get? n = some i := by rw [hregistry, if_pos rfl]
    refine houses_enter hc he hk ⟨?_, fun m hm => ?_⟩ hi hbefore.1
    · rcases hold with hold | ⟨-, -, hlt, -⟩
      · exact (hh.registered n i hold).trans_le hsubs.nextSession
      · exact hlt
    · exact registry_enter hh hold hregistry hm
  | join hbefore hvisit hrest hjoined hregistry hnext hsubs =>
    exact houses_join hc hbefore hvisit hrest hjoined hregistry hnext fun j hj =>
      (hsubs j c hj).imp_right And.right
  | leave hbefore hin hvisit hrest hjoined hregistry hsubs =>
    exact houses_leave hc (hsubs.evolves hregistry c) hbefore hin hvisit hrest hjoined
  | close hbefore hvisit hrest hjoined hregistry hsubs =>
    exact houses_close hc (hsubs.evolves hregistry c) hbefore hvisit hrest hjoined
  | pick hbefore hleaving hin hvisit hrest hjoined hregistry hsubs =>
    exact houses_pick hc (hsubs.evolves hregistry c) hbefore hleaving hin hvisit hrest hjoined
  | cursor hbefore hin hk hregistry hsubs =>
    refine hc.go (hsubs.evolves hregistry c) hk (by simp) (fun m hm => ?_) fun m j hm => ?_
    · cases hm
      rw [hin]
      rfl
    · cases hbefore.1.symm.trans hm
  | unsubscribe hbefore hk hregistry hsubs hout =>
    refine hc.go (hsubs.evolves hregistry c) hk (by simp) (by simp) fun m j hm => ?_
    cases hbefore.symm.trans hm
    exact hout
  | abandon hbefore hl hk hregistry hsubs =>
    refine hc.go (hsubs.evolves hregistry c) hk (by simp) (by simp) fun m j hm => ?_
    cases hbefore.symm.trans hm
  | touch hbefore hl hk hregistry hsubs | clear hbefore hl hk hregistry hsubs =>
    refine hc.go (hsubs.evolves hregistry c) hk (by simp) (by simp) fun m j hm => ?_
    rw [hbefore] at hm
    cases hm
  | drop hbefore hk hregistry hsubs =>
    have he := Visits.evolves (.drop hbefore hk hregistry hsubs : Visits c l s s') (d := c)
      (.inr fun n hn => by cases hk.visit.symm.trans hn)
    refine hc.go he hk (by simp) (by simp) fun m j hm => ?_
    cases hbefore.symm.trans hm

theorem housed_visit (hh : s.Housed) (hturn : Turn c l s s') (hv : Visits c l s s') :
    s'.Housed where
  absent d hd := by
    rw [hturn.nextConnId] at hd
    by_cases hdc : d = c
    · rw [hdc]
      exact (hturn.closed (hh.absent c (hdc ▸ hd))).1
    · rw [(hturn.others d hdc).1]
      exact hh.absent d hd
  registered m j hj := by
    have he := hv.evolves (d := c + 1) (.inl (Nat.succ_ne_self c))
    rcases he.registry m j hj with hj | ⟨-, hlt, -⟩
    · exact (hh.registered m j hj).trans_le he.nextSession
    · exact hlt
  injective m m' j hm hm' := by
    cases hv with
    | stay _ hregistry _ | abandon _ _ _ hregistry _ | cursor _ _ _ hregistry _
    | touch _ _ _ hregistry _ | leave _ _ _ _ _ hregistry _ | close _ _ _ _ hregistry _
    | pick _ _ _ _ _ _ hregistry _ | unsubscribe _ _ hregistry _ _ | clear _ _ _ hregistry _
    | join _ _ _ _ hregistry _ _ =>
      rw [hregistry] at hm hm'
      exact hh.injective m m' j hm hm'
    | @enter n i _ _ hold hregistry _ =>
      by_cases hji : j = i
      · subst hji
        exact (registry_enter hh hold hregistry hm).trans
          (registry_enter hh hold hregistry hm').symm
      · have hne : ∀ {m}, s'.registry.get? m = some j → s.registry.get? m = some j := by
          intro m hm
          rw [hregistry] at hm
          split_ifs at hm
          · exact absurd (Option.some.inj hm).symm hji
          · exact hm
        exact hh.injective m m' j (hne hm) (hne hm')
    | drop _ _ hregistry _ =>
      rcases hregistry with ⟨hregistry, -⟩ | hregistry
      · rw [hregistry] at hm hm'
        exact hh.injective m m' j hm hm'
      · rw [hregistry, FinMap.get?_erase_singleton] at hm hm'
        exact hh.injective m m' j hm.2 hm'.2
  conn d := by
    by_cases hdc : d = c
    · rw [hdc]
      exact hv.houses hh
    · have hd := hturn.others d hdc
      exact (hh.conn d).stay (hv.evolves (.inl hdc)) (.of_eq hd.1 hd.2)

theorem housed_connect (hh : s.Housed)
    (h : s.step core instanceId (.connect userId deviceId) = some s') : s'.Housed := by
  obtain rfl := Option.some.inj h
  refine
    { absent := fun d hd => ?_
      registered := hh.registered
      injective := hh.injective
      conn := fun d => ?_ }
  · have hlt : s.nextConnId < d := hd
    show (Function.update s.conns s.nextConnId _ d).task = .closed
    rw [Function.update_of_ne hlt.ne']
    exact hh.absent d hlt.le
  · show Hub.Houses _ d (Function.update s.conns s.nextConnId _ d)
    rw [Function.update_apply]
    split_ifs with hd
    · refine ⟨fun rest hr => ?_, fun m hm => ?_, fun m j hj => ?_, fun m j hm => ?_,
        fun m j j' hm => ?_, fun m j hj hmem => ?_⟩
      · cases hr
      · cases hm
      · cases hj
      · cases hm
      · cases hm
      · -- nobody has been subscribed under the new number
        have hwithin := (hh.conn d).member m j hj hmem
        have hclosed := hh.attends_closed (n := m) (hh.absent d hd.ge)
        rw [hwithin.attends] at hclosed
        cases hclosed
    · exact (hh.conn d).stay ⟨fun _ _ => .inl, fun _ => id, le_rfl⟩ (.of_eq rfl rfl)

theorem attended_connect (ha : s.Attended)
    (h : s.step core instanceId (.connect userId deviceId) = some s') : s'.Attended := by
  obtain rfl := Option.some.inj h
  intro m hm
  obtain ⟨d, hd, hattends⟩ := ha m hm
  refine ⟨d, Nat.lt_succ_of_lt hd, ?_⟩
  show (Function.update s.conns s.nextConnId _ d).attends m = true
  rw [Function.update_of_ne hd.ne, hattends]

/-! ## Who attends to a note -/

/-- What a connection attends to without a word about what it is doing. -/
theorem Whereabouts.attends_go {k k' : Connection} {v : Visit} (hk : Whereabouts k k' v)
    (ha : k.attends n = true) (hv : k.task.visit.note? = some n → k'.attends n = true) :
    k'.attends n = true := by
  rw [Connection.attends_iff] at ha
  rcases ha with hj | hr | hn
  · exact Connection.attends_iff.mpr (.inl (hk.joined ▸ hj))
  · exact Connection.attends_iff.mpr (.inr (.inl (hk.rest ▸ hr)))
  · exact hv hn

theorem attends_of_visit {k : Connection} (hv : k.task.visit.note? = some n) :
    k.attends n = true :=
  Connection.attends_iff.mpr (.inr (.inr hv))

/-- A connection turns away from a note when its `Join` fails, and when it drops the
    session. -/
theorem Visits.attends (hv : Visits c l s s') (hh : s.Housed)
    (ha : (s.conns c).attends n = true) : (s'.conns c).attends n = true ∨
      s.joinFails l = some n ∧ (s.conns c).joined.get? n = none ∨
      (s.conns c).task.visit = .dropping n := by
  cases hv with
  | stay hk hregistry hsubs => exact .inl (hk.attends.trans ha)
  | enter hbefore hk hold hregistry hsubs | cursor hbefore hin hk hregistry hsubs =>
    refine .inl (hk.attends_go ha fun hn => ?_)
    rw [hbefore.1] at hn
    cases hn
  | @abandon m i hbefore hl hk hregistry hsubs =>
    by_cases hj : (s.conns c).joined.get? n = none
    · by_cases hm : m = n
      · exact .inr (.inl ⟨hm ▸ hl, hj⟩)
      · refine .inl (hk.attends_go ha fun hn => ?_)
        rw [hbefore] at hn
        exact absurd (Option.some.inj hn) hm
    · refine .inl (Connection.attends_iff.mpr (.inl ?_))
      rw [hk.joined]
      exact Option.isSome_iff_ne_none.mpr hj
  | touch hbefore hl hk hregistry hsubs =>
    refine .inl (hk.attends_go ha fun hn => Connection.attends_iff.mpr (.inl ?_))
    rw [hk.joined]
    rw [hbefore] at hn
    obtain rfl := Option.some.inj hn
    exact (hh.conn c).touching _ (by rw [hbefore]; rfl)
  | unsubscribe hbefore hk hregistry hsubs hout =>
    refine .inl (hk.attends_go ha fun hn => attends_of_visit ?_)
    rw [hk.visit]
    rw [hbefore] at hn
    exact hn
  | clear hbefore hl hk hregistry hsubs =>
    refine .inl (hk.attends_go ha fun hn => attends_of_visit ?_)
    rw [hk.visit]
    rw [hbefore] at hn
    exact hn
  | @drop m hbefore hk hregistry hsubs =>
    by_cases hm : m = n
    · exact .inr (.inr (hm ▸ hbefore))
    · refine .inl (hk.attends_go ha fun hn => ?_)
      rw [hbefore] at hn
      exact absurd (Option.some.inj hn) hm
  | @join m i hbefore hvisit hrest hjoined hregistry hnext hsubs =>
    refine .inl ?_
    by_cases hm : n = m
    · exact attends_of_visit (by rw [hvisit, hm]; rfl)
    · rw [Connection.attends_iff] at ha ⊢
      rw [hjoined, hrest, FinMap.get?_insert_of_ne _ hm]
      refine ha.imp_right (.imp_right fun hn => ?_)
      rw [hbefore] at hn
      exact absurd (Option.some.inj hn).symm hm
  | @leave m i hbefore hin hvisit hrest hjoined hregistry hsubs =>
    refine .inl ?_
    by_cases hm : n = m
    · exact attends_of_visit (by rw [hvisit, hm]; rfl)
    · rw [Connection.attends_iff, hbefore.1, hbefore.2] at ha
      rw [Connection.attends_iff, hjoined]
      rcases ha with hj | ⟨rest, hr, -⟩ | hn
      · exact .inl (by simpa [hm] using hj)
      · cases hr
      · cases hn
  | close hbefore hvisit hrest hjoined hregistry hsubs =>
    rw [Connection.attends_iff, hbefore.1, hbefore.2] at ha
    rcases ha with hj | ⟨rest, hr, -⟩ | hn
    · exact .inl (Connection.attends_iff.mpr (.inr (.inl ⟨_, hrest, hj⟩)))
    · cases hr
    · cases hn
  | @pick m i rest hbefore hleaving hin hvisit hrest hjoined hregistry hsubs =>
    refine .inl ?_
    by_cases hm : n = m
    · exact attends_of_visit (by rw [hvisit, hm]; rfl)
    · rw [Connection.attends_iff, hbefore] at ha
      rw [Connection.attends_iff, hjoined, hrest]
      rcases ha with hj | ⟨rest', hr, hn⟩ | hn
      · exact .inl hj
      · obtain rfl := Option.some.inj (hleaving.symm.trans hr)
        exact .inr (.inl ⟨_, rfl, by simpa [hm] using hn⟩)
      · cases hn

/-- A session that is not dropped has a subscriber, who will come to drop it. -/
theorem Visits.attended_drop (hv : Visits c l s s') (hh : s.Housed) (hturn : Turn c l s s')
    (hbefore : (s.conns c).task.visit = .dropping n) (hi : s'.registry.get? n = some i) :
    ∃ d, (s'.conns d).attends n = true := by
  cases hv with
  | stay hk _ _ => exact ⟨c, attends_of_visit (by rw [hk.visit, hbefore]; rfl)⟩
  | @drop m hm hk hregistry _ =>
    obtain rfl : m = n := by simpa using hm.symm.trans hbefore
    rcases hregistry with ⟨hregistry, hsubs⟩ | hregistry
    · rw [hregistry] at hi
      obtain ⟨d, hd⟩ := Finset.nonempty_iff_ne_empty.mpr (hsubs i hi)
      have hwithin := (hh.conn d).member m i hi hd
      refine ⟨d, ?_⟩
      by_cases hdc : d = c
      · obtain rfl := hdc
        rcases hwithin with hj | ⟨rest, hr, hn⟩ | hu
        · exact Connection.attends_iff.mpr (.inl (by rw [hk.joined, hj]; rfl))
        · exact Connection.attends_iff.mpr (.inr (.inl ⟨rest, hk.rest ▸ hr, by rw [hn]; rfl⟩))
        · cases hbefore.symm.trans hu
      · have hother := hturn.others d hdc
        exact (Whereabouts.of_eq hother.1 hother.2).attends.trans hwithin.attends
    · rw [hregistry, FinMap.get?_erase_singleton] at hi
      exact absurd rfl hi.1
  | enter h _ _ _ _ | cursor h _ _ _ _ | leave h _ _ _ _ _ _ | close h _ _ _ _ _ =>
    cases h.1.symm.trans hbefore
  | abandon h _ _ _ _ | join h _ _ _ _ _ _ | pick h _ _ _ _ _ _ _ | unsubscribe h _ _ _ _ =>
    cases h.symm.trans hbefore
  | touch h _ _ _ _ | clear h _ _ _ _ =>
    rw [h] at hbefore
    cases hbefore

/-- Who makes the session of a note is about to enter it. -/
theorem Visits.attends_new (hv : Visits c l s s') (hi : s'.registry.get? n = some i)
    (hold : ¬ ∃ i, s.registry.get? n = some i) : (s'.conns c).attends n = true := by
  cases hv with
  | @enter m j _ hk _ hregistry _ =>
    rw [hregistry] at hi
    split_ifs at hi with hm
    · exact attends_of_visit (by rw [hk.visit, hm]; rfl)
    · exact absurd ⟨i, hi⟩ hold
  | drop _ _ hregistry _ =>
    rcases hregistry with ⟨hregistry, -⟩ | hregistry
    · exact absurd ⟨i, hregistry ▸ hi⟩ hold
    · rw [hregistry, FinMap.get?_erase_singleton] at hi
      exact absurd ⟨i, hi.2⟩ hold
  | stay _ hregistry _ | abandon _ _ _ hregistry _ | cursor _ _ _ hregistry _
  | touch _ _ _ hregistry _ | leave _ _ _ _ _ hregistry _ | close _ _ _ _ hregistry _
  | pick _ _ _ _ _ _ hregistry _ | unsubscribe _ _ hregistry _ _ | clear _ _ _ hregistry _
  | join _ _ _ _ hregistry _ _ =>
    exact absurd ⟨i, hregistry ▸ hi⟩ hold

/-- Nobody turns away from a note in the registry, unless the step strands it. -/
theorem attended_visit (hh : s.Housed) (hturn : Turn c l s s') (hv : Visits c l s s')
    (hl : l.conn = some c) (ha : s.Attended) (hs : s.strands l = false) : s'.Attended := by
  refine (housed_visit hh hturn hv).attended fun n j hj => ?_
  by_cases hold : ∃ i, s.registry.get? n = some i
  · obtain ⟨i, hi⟩ := hold
    have hothers : ∀ d, d ≠ c → (s.conns d).attends n = true → (s'.conns d).attends n = true :=
      fun d hdc hd => by
        have hother := hturn.others d hdc
        exact (Whereabouts.of_eq hother.1 hother.2).attends.trans hd
    obtain ⟨d, hd⟩ := ha.exists_attends hi
    by_cases hdc : d = c
    · rcases hv.attends hh (hdc ▸ hd) with hc | ⟨hfails, hnone⟩ | hdrop
      · exact ⟨c, hc⟩
      · by_contra hnobody
        refine Bool.eq_false_iff.mp hs (strands_iff.mpr ⟨n, hfails, ?_, fun d' _ => ?_⟩)
        · rw [hi]
          rfl
        · split_ifs with hd'
          · obtain rfl := Option.some.inj (hl.symm.trans hd')
            exact hnone
          · have hne : d' ≠ c := fun h => hd' (h ▸ hl)
            exact Bool.eq_false_iff.mpr fun h => hnobody ⟨d', hothers d' hne h⟩
      · exact hv.attended_drop hh hturn hdrop hj
    · exact ⟨d, hothers d hdc hd⟩
  · exact ⟨c, hv.attends_new hj hold⟩

/-- A `Join` that fails gives its lock back, and that is all. -/
theorem step_joinFails (core : KeeplinCore) (instanceId : Uuid) (hn : s.joinFails l = some n) :
    ∃ c i, l.conn = some c ∧ (s.conns c).task.visit = .entering n i ∧
      s.step core instanceId l = some (s.abortLocked c i) := by
  cases l with
  | go c now =>
    simp only [joinFails] at hn
    split at hn
    · next m i ht =>
      split_ifs at hn with hnone
      obtain rfl := Option.some.inj hn
      exact ⟨c, i, rfl, by rw [ht]; rfl, by simp [step, go, ht, hnone]⟩
    · cases hn
  | fail c handled =>
    simp only [joinFails] at hn
    split at hn
    · next m i ht =>
      obtain rfl := Option.some.inj hn
      exact ⟨c, i, rfl, by rw [ht]; rfl, by simp [step, fail, ht]⟩
    · next m i order ht =>
      obtain rfl := Option.some.inj hn
      exact ⟨c, i, rfl, by rw [ht]; rfl, by simp [step, fail, ht]⟩
    · cases hn
  | connect | recv | close | access | pick | write => cases hn

/-- A note that is stranded has nobody left. -/
theorem not_attended_of_strands (core : KeeplinCore) (instanceId : Uuid)
    (hs : s.strands l = true) :
    ∃ s', s.step core instanceId l = some s' ∧ ¬ s'.Attended := by
  obtain ⟨n, hn, hi, hnobody⟩ := strands_iff.mp hs
  obtain ⟨c, i, hl, hvisit, hstep⟩ := step_joinFails core instanceId hn
  refine ⟨_, hstep, fun ha => ?_⟩
  obtain ⟨d, hlt, hd⟩ := ha n ((s.registry.mem_keys n).mpr hi)
  have hd' := hnobody d hlt
  have htold : ((s.unlock i).tell c internalError).conns = Function.update s.conns c
      ((s.conns c).trySend internalError) := rfl
  have hconns : (s.abortLocked c i).conns = Function.update s.conns c
      { (s.conns c).trySend internalError with task := .idle } := by
    show (((s.unlock i).tell c internalError).goto c .idle).conns = _
    rw [Hub.conns_goto, htold, Function.update_self, Function.update_idem]
  rw [hconns] at hd
  split_ifs at hd' with hdc
  · obtain rfl := Option.some.inj (hl.symm.trans hdc)
    rw [Function.update_self, Connection.attends_iff] at hd
    rcases hd with hd | ⟨rest, hr, -⟩ | hd
    · simp [Connection.joined_trySend, hd'] at hd
    · cases hr
    · cases hd
  · have hne : d ≠ c := fun h => hdc (h ▸ hl)
    rw [Function.update_of_ne hne, hd'] at hd
    cases hd

end

end Server

/-! ## Runs -/

namespace Node

section

variable {i : Uuid} {x : Shared} {n n' : Node} {l : ListenerStep}

theorem go_shrinks (h : n.go x = some n') :
    n.hub.Shrinks n'.hub ∧ n'.hub.registry = n.hub.registry := by
  unfold go at h
  split at h
  · obtain ⟨e, he, rfl⟩ := Option.map_eq_some_iff.mp h
    exact ⟨.refl _, rfl⟩
  · split at h <;> obtain rfl := Option.some.inj h <;> exact ⟨.refl _, rfl⟩
  · next event j ht =>
    obtain ⟨hub, hlock, rfl⟩ := Option.map_eq_some_iff.mp h
    have hsubs := Hub.shrinks_lock hlock
    unfold Hub.lock at hlock
    split_ifs at hlock
    obtain rfl := Option.some.inj hlock
    exact ⟨hsubs, rfl⟩
  · next event j ht =>
    obtain rfl := Option.some.inj h
    have hsubs : n.hub.Shrinks (n.hub.bumpSeq j) := Hub.shrinks_bumpSeq
    exact ⟨⟨hsubs.subscribers, hsubs.nextSession⟩, rfl⟩
  · obtain rfl := Option.some.inj h
    exact ⟨Hub.shrinks_dropSlow.trans Hub.shrinks_unlock, rfl⟩
  · split at h <;> obtain rfl := Option.some.inj h <;> exact ⟨.refl _, rfl⟩
  · obtain rfl := Option.some.inj h
    exact ⟨.of_eq rfl rfl, rfl⟩
  · obtain rfl := Option.some.inj h
    exact ⟨Hub.shrinks_dropSlow, rfl⟩
  · cases h
  · cases h

/-- A listener neither makes nor drops sessions. -/
theorem listen_shrinks (h : n.listen i x l = some n') :
    n.hub.Shrinks n'.hub ∧ n'.hub.registry = n.hub.registry := by
  cases l with
  | go => exact go_shrinks h
  | recv =>
    simp only [listen] at h
    split at h
    · obtain ⟨p, hp, rfl⟩ := Option.map_eq_some_iff.mp h
      exact ⟨.refl _, rfl⟩
    · cases h
  | connect | disconnect | recvPresence noteId | fail =>
    simp only [listen] at h
    split at h
    all_goals first
      | cases h
        done
      | obtain rfl := Option.some.inj h
        exact ⟨.refl _, rfl⟩

end

end Node

namespace Bus

/-- The step of the bus is a `Join` that fails, and leaves a session that nobody will drop. -/
def strands (b : Bus) : BusStep → Bool
  | .server i l => (b.server i).strands l
  | .listen .. => false

/-- The registries of all instances. -/
def Attended (b : Bus) : Prop := ∀ i, (b.nodes i).hub.Attended

def Housed (b : Bus) : Prop := ∀ i, (b.nodes i).hub.Housed

section

variable {core : KeeplinCore} {b b' : Bus} {i : Uuid} {s : Server} {l : BusStep}

/-- Only the rooms of the instance whose step it is change. -/
theorem forall_nodes {P : Hub → Prop} {n : Node} (h : ∀ j, P (b.nodes j).hub)
    (hn : P n.hub) (j : Uuid) : P (Function.update b.nodes i n j).hub := by
  rw [Function.update_apply]
  split_ifs
  · exact hn
  · exact h j

theorem Housed.step (h : b.Housed) (hstep : b.step core l = some b') : b'.Housed := by
  cases l with
  | server i l =>
    obtain ⟨s, hs, rfl⟩ := Option.map_eq_some_iff.mp hstep
    refine forall_nodes h ?_
    cases hc : l.conn with
    | none =>
      cases l with
      | connect userId deviceId => exact Server.housed_connect (h i) hs
      | _ => cases hc
    | some c => exact Server.housed_visit (h i) (Server.step_turn hs hc) (Server.step_visits hs hc)
  | listen i l =>
    obtain ⟨n, hn, rfl⟩ := Option.map_eq_some_iff.mp hstep
    have hturn := Node.listen_turn hn
    have hsubs := Node.listen_shrinks hn
    exact forall_nodes h ((h i).shrinks hturn.task hturn.joined hturn.nextConnId hsubs.2 hsubs.1)

theorem Attended.step (ha : b.Attended) (h : b.Housed) (hs : b.strands l = false)
    (hstep : b.step core l = some b') : b'.Attended := by
  cases l with
  | server i l =>
    obtain ⟨s, hs', rfl⟩ := Option.map_eq_some_iff.mp hstep
    refine forall_nodes ha ?_
    cases hc : l.conn with
    | none =>
      cases l with
      | connect userId deviceId => exact Server.attended_connect (ha i) hs'
      | _ => cases hc
    | some c =>
      exact Server.attended_visit (h i) (Server.step_turn hs' hc) (Server.step_visits hs' hc) hc
        (ha i) hs
  | listen i l =>
    obtain ⟨n, hn, rfl⟩ := Option.map_eq_some_iff.mp hstep
    have hturn := Node.listen_turn hn
    exact forall_nodes ha ((ha i).congr hturn.task hturn.joined hturn.nextConnId
      (Node.listen_shrinks hn).2)

/-- Whether the registries stay attended is decided by the `Join`s that fail. -/
theorem attended_step (ha : b.Attended) (h : b.Housed) :
    (∀ b', b.step core l = some b' → b'.Attended) ↔ b.strands l = false := by
  refine ⟨fun hall => Bool.eq_false_iff.mpr fun hs => ?_, fun hs b' hstep => ha.step h hs hstep⟩
  cases l with
  | server i l =>
    obtain ⟨s, hstep, hnot⟩ :=
      Server.not_attended_of_strands core i hs
    refine hnot ?_
    have hi := hall (b.withServer i s) (Option.map_eq_some_iff.mpr ⟨s, hstep, rfl⟩) i
    simpa [withServer] using hi
  | listen i l => cases hs

end

/-- **The registries hold no session that nobody will drop**, exactly as long as no `Join`
    fails after it has got the session of a note that nobody else attends to. After a run
    without such a step, an instance whose connections have all closed holds none. -/
theorem registry_attended (core : KeeplinCore) (db : Db) (steps : List BusStep) :
    (Always (step core) Attended (init db) steps ↔
        Meets (step core) (fun b l => b.strands l = false) (init db) steps) ∧
      ∀ b, run (step core) (init db) steps = some b →
        Meets (step core) (fun b l => b.strands l = false) (init db) steps →
        ∀ i, (b.nodes i).hub.AllClosed → (b.nodes i).hub.registry = .empty := by
  have hattended : (init db).Attended := fun i n hn => by
    simp [init, Node.init, Hub.init, FinMap.empty] at hn
  have hinit : (init db).Housed ∧ (init db).Attended := ⟨fun i => Hub.housed_init, hattended⟩
  constructor
  · exact meets_iff_meets (P := fun b => b.Housed ∧ b.Attended)
      (fun b l h => attended_step h.2 h.1)
      (fun b l b' h ha hstep => ⟨h.1.step hstep, ha b' hstep⟩) hinit
  · intro b hrun hmeets i hclosed
    obtain ⟨hh, ha⟩ := run_induction (P := fun b => b.Housed ∧ b.Attended)
      (fun b l b' h hs hstep => ⟨h.1.step hstep, h.2.step h.1 hs hstep⟩) hinit hmeets hrun
    ext1 n
    by_contra hn
    have hmem : n ∈ (b.nodes i).hub.registry.keys :=
      ((b.nodes i).hub.registry.mem_keys n).mpr (Option.isSome_iff_ne_none.mpr hn)
    obtain ⟨c, hc, hattends⟩ := ha i n hmem
    rw [(hh i).attends_closed (Task.eq_closed (hclosed c hc))] at hattends
    cases hattends

/-- A device joins note 1 on instance 1, and its socket closes. -/
def closingRun : List BusStep :=
  handlers 1 (.connect 1 1 :: Server.joins 0 1 ++ [.close 0, .pick 0 1] ++ Server.goes 0 7)

/-- The `Join` fails when it reads the order of the note. -/
def failingRun : List BusStep :=
  handlers 1 ([.connect 1 1, .recv 0 (.join 1), .access 0 Server.granted] ++ Server.goes 0 2 ++
    [.fail 0 0, .close 0, .go 0 5])

/-- In the first run the session is dropped, in the second nobody will ever drop it. -/
theorem registry_attended_closingRun :
    (∃ b, run (step .sample) (init sampleDb) closingRun = some b ∧
      (b.nodes 1).hub.registry = .empty) ∧
    ¬ Always (step .sample) Attended (init sampleDb) failingRun := by
  have hclosed : (run (step .sample) (init sampleDb) closingRun).map
      (fun b => decide (b.nodes 1).hub.AllClosed) = some true := by decide +kernel
  have hmeets : Meets (step .sample) (fun b l => b.strands l = false) (init sampleDb)
      closingRun := by decide +kernel
  have hfails : ¬ Meets (step .sample) (fun b l => b.strands l = false) (init sampleDb)
      failingRun := by decide +kernel
  obtain ⟨b, hrun, hb⟩ := Option.map_eq_some_iff.mp hclosed
  refine ⟨⟨b, hrun, ?_⟩, fun h => hfails ((registry_attended .sample sampleDb failingRun).1.mp h)⟩
  exact (registry_attended .sample sampleDb closingRun).2 b hrun hmeets 1 (of_decide_eq_true hb)

end Bus

end KeeplinSrv
