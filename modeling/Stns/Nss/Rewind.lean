import Stns.Nss.Session

/-!
# Rewinding an enumeration

Getting an entry without a set call should be getting one after a set call, and
a set call should end the enumeration before it.  The nested set call fails on
the mutex, and a set call that is not served returns before it resets anything.
-/

namespace Stns

/-!
## Implicit rewind
-/

section Implicit

variable {M : Machine} {db : Database} {f : Fetch}

theorem getent_of_blank {st : EntryState} (h : st.entries = none)
    (p : Packing db.Record) :
    (nssStnsGetentR M db f ⟨st, false⟩ p).2 = ⟨st, false⟩ := by
  rcases getent_cases M f st p with
    ⟨c, items, element, _, hentries, _, _, _⟩ | ⟨_, hsame⟩
  · rw [h] at hentries
    cases hentries
  · exact hsame

theorem getent_entries (st : EntryState) (p : Packing db.Record) :
    (nssStnsGetentR M db f ⟨st, false⟩ p).2.st.entries = st.entries := by
  rcases getent_cases M f st p with
    ⟨c, items, element, _, _, _, _, hreply⟩ | ⟨_, hsame⟩
  · rw [hreply]
  · rw [hsame]

end Implicit

/-- In every reachable state without entries: getting an entry is the same as
getting one after a set call exactly when the set call fetches no document. -/
theorem implicit_rewind_iff (M : Machine) (db : Database)
    (calls : List (SessionCall db.Record)) (f : Fetch)
    (p : Packing db.Record)
    (hblank : (sessionAfter M db Session.start calls).st.entries = none) :
    nssStnsGetentR M db f (sessionAfter M db Session.start calls) p =
        nssStnsGetentR M db f
          (nssStnsSetent f (sessionAfter M db Session.start calls)).2 p <->
      f.fetched = none := by
  have hinv := sessionInvariant_after (M := M) calls sessionInvariant_start
  generalize sessionAfter M db Session.start calls = s at hblank hinv ⊢
  rcases s with ⟨⟨entries, idx⟩, locked⟩
  have hfree : locked = false := hinv.free
  have hnone : entries = none := hblank
  have hidx : idx = 0 := hinv.blank hblank
  subst hfree
  subst hnone
  subst hidx
  unfold Fetch.fetched
  by_cases hserved : f.Served
  · rw [if_pos hserved, setent_of_served hserved]
    cases hdocument : f.document with
    | none => exact ⟨fun _ => rfl, fun _ => rfl⟩
    | some root =>
        constructor
        · intro hsame
          have hleft : (nssStnsGetentR M db f ⟨⟨none, 0⟩, false⟩ p).2 =
              ⟨⟨none, 0⟩, false⟩ := getent_of_blank rfl p
          have hright := getent_entries (M := M) (f := f)
            (EntryState.loaded root) p
          dsimp only at hsame
          rw [← hsame, hleft] at hright
          cases hright
        · intro h
          cases h
  · rw [if_neg hserved, setent_of_not_served hserved]
    exact ⟨fun _ => rfl, fun _ => rfl⟩

/-- A request for users that is not found, at the start of the process. -/
theorem implicit_rewind_iff_not_found :
    nssStnsGetentR Machine.wrapping .passwd
        ⟨some {}, CurlCode.httpReturnedError, 404, none⟩
        (sessionAfter Machine.wrapping .passwd Session.start [])
        (Database.passwd.blankPacking 64) =
      nssStnsGetentR Machine.wrapping .passwd
        ⟨some {}, CurlCode.httpReturnedError, 404, none⟩
        (nssStnsSetent ⟨some {}, CurlCode.httpReturnedError, 404, none⟩
          (sessionAfter Machine.wrapping .passwd Session.start [])).2
        (Database.passwd.blankPacking 64) <->
      (Fetch.mk (some {}) CurlCode.httpReturnedError 404 none).fetched =
        none :=
  implicit_rewind_iff Machine.wrapping .passwd [] _ _ rfl

/-- The server has one user. -/
def oneUserFetch : Fetch :=
  ⟨some {}, CurlCode.ok, 200,
    some (.array [.object [(Key.name, .string (ascii "user1"))]])⟩

/-- Without a set call the user is not returned. -/
theorem implicit_rewind_unavailable :
    (nssStnsGetentR Machine.wrapping .passwd oneUserFetch Session.start
        (Database.passwd.blankPacking 64)).1.status = .unavail ∧
      (nssStnsGetentR Machine.wrapping .passwd oneUserFetch
        (nssStnsSetent oneUserFetch Session.start).2
        (Database.passwd.blankPacking 64)).1.status = .success ∧
      nssStnsGetentR Machine.wrapping .passwd oneUserFetch Session.start
          (Database.passwd.blankPacking 64) ≠
        nssStnsGetentR Machine.wrapping .passwd oneUserFetch
          (nssStnsSetent oneUserFetch Session.start).2
          (Database.passwd.blankPacking 64) := by
  have hleft : (nssStnsGetentR Machine.wrapping .passwd oneUserFetch
      Session.start (Database.passwd.blankPacking 64)).1.status =
        .unavail := by decide
  have hright : (nssStnsGetentR Machine.wrapping .passwd oneUserFetch
      (nssStnsSetent oneUserFetch Session.start).2
      (Database.passwd.blankPacking 64)).1.status = .success := by decide
  refine ⟨hleft, hright, ?_⟩
  intro hsame
  rw [hsame, hright] at hleft
  cases hleft

/-!
## The end of the previous enumeration
-/

/-- After a set call, the next entry that is returned is the first element of a
document that this set call or a later one fetched. -/
def EndsPrevious (M : Machine) (db : Database) (s : Session)
    (f : Fetch) : Prop :=
  forall (later : List (SessionCall db.Record)) (f' : Fetch)
    (p : Packing db.Record),
    Quiet M db (nssStnsSetent f s).2 later ->
      let reply := (nssStnsGetentR M db f'
        (sessionAfter M db (nssStnsSetent f s).2 later) p).1
      reply.status = .success ->
        exists c items element,
          f'.config = some c ∧
            .array items ∈ f.fetched.toList ++
              fetchedBy (later ++ [.get f' p]) ∧
            items[0]? = some element ∧
            reply = db.ensure M c (objectOf element) p

section Ends

variable {M : Machine} {db : Database}

/-- Any entry that can be returned is the first of one of the documents. -/
structure StartsFrom (db : Database) (documents : List Json)
    (s : Session) : Prop where
  free : s.locked = false
  first : Pending db s.st -> exists items, .array items ∈ documents ∧
    s.st = ⟨some (.array items), 0⟩

theorem StartsFrom.more {documents more : List Json} {s : Session}
    (h : StartsFrom db documents s) : StartsFrom db (documents ++ more) s := by
  refine ⟨h.free, ?_⟩
  intro hpending
  rcases h.first hpending with ⟨items, hitems, hst⟩
  exact ⟨items, List.mem_append_left more hitems, hst⟩

/-- A served set call starts from what it fetched. -/
theorem startsFrom_setent {f : Fetch} (h : f.Served) (st : EntryState)
    (documents : List Json) :
    StartsFrom db (documents ++ f.fetched.toList)
      (nssStnsSetent f ⟨st, false⟩).2 := by
  rw [setent_of_served h]
  unfold Fetch.fetched
  rw [if_pos h]
  cases f.document with
  | none =>
      refine ⟨rfl, ?_⟩
      intro hpending
      rcases hpending with ⟨items, element, hentries, _, _⟩
      cases hentries
  | some root =>
      refine ⟨rfl, ?_⟩
      intro hpending
      rcases hpending with ⟨items, element, hentries, _, _⟩
      injection hentries with hroot
      refine ⟨items, ?_, ?_⟩
      · rw [hroot]
        exact List.mem_append_right documents List.mem_cons_self
      · show EntryState.mk (some root) 0 = _
        rw [hroot]

theorem fetched_of_not_served {f : Fetch} (h : ¬ f.Served) :
    f.fetched = none :=
  if_neg h

/-- Calls that return no entry keep it so. -/
theorem StartsFrom.step {documents : List Json} {s : Session}
    (h : StartsFrom db documents s) {call : SessionCall db.Record}
    (hquiet : forall r, (sessionStep M db s call).1 = .entry r ->
      r.status ≠ .success) :
    StartsFrom db (documents ++ fetchedBy [call])
      (sessionStep M db s call).2 := by
  rcases s with ⟨st, locked⟩
  have hfree : locked = false := h.free
  subst hfree
  cases call with
  | set f =>
      show StartsFrom db (documents ++ (f.fetched.toList ++ []))
        (nssStnsSetent f ⟨st, false⟩).2
      rw [List.append_nil]
      by_cases hserved : f.Served
      · exact startsFrom_setent hserved st documents
      · rw [setent_of_not_served hserved]
        exact h.more
  | get f p =>
      show StartsFrom db (documents ++ (f.fetched.toList ++ []))
        (nssStnsGetentR M db f ⟨st, false⟩ p).2
      have hfailed := hquiet (nssStnsGetentR M db f ⟨st, false⟩ p).1 rfl
      rcases getent_cases M f st p with
        ⟨c, items, element, _, _, _, hsuccess, hreply⟩ | ⟨_, hsame⟩
      · rw [hreply] at hfailed
        exact absurd hsuccess hfailed
      · rw [hsame]
        exact h.more
  | endent =>
      show StartsFrom db (documents ++ []) (sessionEndent ⟨st, false⟩).2
      rw [endent_eq]
      refine ⟨rfl, ?_⟩
      intro hpending
      rcases hpending with ⟨items, element, hentries, _, _⟩
      cases hentries

theorem fetchedBy_cons (call : SessionCall db.Record)
    (rest : List (SessionCall db.Record)) :
    fetchedBy (call :: rest) = fetchedBy [call] ++ fetchedBy rest := by
  cases call with
  | set f =>
      show f.fetched.toList ++ fetchedBy rest =
        (f.fetched.toList ++ []) ++ fetchedBy rest
      rw [List.append_nil]
  | get f p =>
      show f.fetched.toList ++ fetchedBy rest =
        (f.fetched.toList ++ []) ++ fetchedBy rest
      rw [List.append_nil]
  | endent => rfl

theorem fetchedBy_append (front back : List (SessionCall db.Record)) :
    fetchedBy (front ++ back) = fetchedBy front ++ fetchedBy back := by
  induction front with
  | nil => rfl
  | cons call rest ih =>
      rw [List.cons_append, fetchedBy_cons, ih, fetchedBy_cons call rest,
        List.append_assoc]

theorem StartsFrom.after {documents : List Json} {s : Session}
    (h : StartsFrom db documents s) {later : List (SessionCall db.Record)}
    (hquiet : Quiet M db s later) :
    StartsFrom db (documents ++ fetchedBy later)
      (sessionAfter M db s later) := by
  induction later generalizing documents s with
  | nil => exact h.more
  | cons call rest ih =>
      have hrest := ih (h.step hquiet.left) hquiet.right
      rw [fetchedBy_cons, ← List.append_assoc]
      exact hrest

theorem StartsFrom.entry {documents : List Json} {s : Session}
    (h : StartsFrom db documents s) {f : Fetch} {p : Packing db.Record}
    (hsuccess : (nssStnsGetentR M db f s p).1.status = .success) :
    exists c items element, f.config = some c ∧ .array items ∈ documents ∧
      items[0]? = some element ∧
      (nssStnsGetentR M db f s p).1 = db.ensure M c (objectOf element) p := by
  rcases s with ⟨st, locked⟩
  have hfree : locked = false := h.free
  subst hfree
  rcases getent_cases M f st p with
    ⟨c, items, element, hconfig, hentries, hget, hentry, hreply⟩ |
      ⟨hfailed, _⟩
  · have haccepts := ((Database.ensure_success_iff p).mp hentry).left
    rcases h.first ⟨items, element, hentries, hget, haccepts⟩ with
      ⟨items', hmem, hst⟩
    have hst' : st = ⟨some (.array items'), 0⟩ := hst
    subst hst'
    cases hentries
    refine ⟨c, items, element, hconfig, hmem, hget, ?_⟩
    rw [hreply]
  · exact absurd hsuccess hfailed

/-- A set call that is not served leaves the next element to be returned. -/
theorem not_endsPrevious_of_pending {f : Fetch} {st : EntryState}
    (hserved : ¬ f.Served) (hpending : Pending db st) :
    ¬ EndsPrevious M db ⟨st, false⟩ f := by
  rcases hpending with ⟨items, element, hentries, hget, haccepts⟩
  have hsame := setent_of_not_served hserved ⟨st, false⟩
  have hreply := @getent_of_pending M db
    ⟨some {}, CurlCode.httpReturnedError, 404, none⟩ st
    (db.blankPacking (db.need (objectOf element))) {} rfl items element
    hentries hget haccepts (Nat.le_refl _)
  have hsuccess := (Database.ensure_ok (M := M) (c := {})
    (db.blankPacking (db.need (objectOf element))) haccepts
      (Nat.le_refl _)).left
  intro h
  have hfirst := h [] ⟨some {}, CurlCode.httpReturnedError, 404, none⟩
    (db.blankPacking (db.need (objectOf element))) trivial (by
      show (nssStnsGetentR M db _ (nssStnsSetent f ⟨st, false⟩).2
        _).1.status = .success
      rw [hsame, hreply]
      exact hsuccess)
  rcases hfirst with ⟨c, items', element', _, hmem, _, _⟩
  rw [fetched_of_not_served hserved] at hmem
  cases hmem

end Ends

/-- A set call in a reachable state ends the enumeration before it exactly when
its configuration loads and its request succeeds, or there was nothing left to
return. -/
theorem ends_previous_iff (M : Machine) (db : Database)
    (calls : List (SessionCall db.Record)) (f : Fetch) :
    EndsPrevious M db (sessionAfter M db Session.start calls) f <->
      f.Served ∨ ¬ Pending db (sessionAfter M db Session.start calls).st := by
  have hinv := sessionInvariant_after (M := M) calls sessionInvariant_start
  generalize sessionAfter M db Session.start calls = s at hinv ⊢
  rcases s with ⟨st, locked⟩
  have hfree : locked = false := hinv.free
  subst hfree
  constructor
  · intro h
    by_contra hnot
    rw [not_or, not_not] at hnot
    exact not_endsPrevious_of_pending hnot.left hnot.right h
  · intro h later f' p hquiet
    dsimp only
    intro hsuccess
    have hstart : StartsFrom db f.fetched.toList
        (nssStnsSetent f ⟨st, false⟩).2 := by
      by_cases hserved : f.Served
      · exact startsFrom_setent hserved st []
      · rw [setent_of_not_served hserved]
        have hnot := h.resolve_left hserved
        exact ⟨rfl, fun hpending => absurd hpending hnot⟩
    rcases (hstart.after hquiet).entry hsuccess with
      ⟨c, items, element, hconfig, hmem, hget, hreply⟩
    refine ⟨c, items, element, hconfig, ?_, hget, hreply⟩
    rw [fetchedBy_append, ← List.append_assoc]
    exact List.mem_append_left _ hmem

/-- Two users. -/
def twoUsersFetch : Fetch :=
  ⟨some {}, CurlCode.ok, 200,
    some (.array [.object [(Key.name, .string (ascii "user1"))],
      .object [(Key.name, .string (ascii "user2"))]])⟩

/-- A server that does not know the path. -/
def notFoundFetch : Fetch :=
  ⟨some {}, CurlCode.httpReturnedError, 404, none⟩

/-- After the first of two users, a set call that is not found leaves the
second to be returned. -/
theorem failed_setent_continues :
    let calls : List (SessionCall Passwd) :=
      [.set twoUsersFetch,
        .get twoUsersFetch (Database.passwd.blankPacking 64)]
    let s := sessionAfter Machine.wrapping .passwd Session.start calls
    (nssStnsSetent notFoundFetch s).1 = .notFound ∧
      (nssStnsGetentR Machine.wrapping .passwd notFoundFetch
        (nssStnsSetent notFoundFetch s).2
        (Database.passwd.blankPacking 64)).1.status = .success ∧
      ¬ EndsPrevious Machine.wrapping .passwd s notFoundFetch := by
  dsimp only
  have hsuccess : (nssStnsGetentR Machine.wrapping .passwd notFoundFetch
      (nssStnsSetent notFoundFetch (sessionAfter Machine.wrapping .passwd
        Session.start [.set twoUsersFetch,
          .get twoUsersFetch (Database.passwd.blankPacking 64)])).2
      (Database.passwd.blankPacking 64)).1.status = .success := by decide
  refine ⟨by decide, hsuccess, ?_⟩
  intro h
  rcases h [] notFoundFetch (Database.passwd.blankPacking 64) trivial
    hsuccess with ⟨c, items, element, _, hmem, _, _⟩
  cases hmem

end Stns
