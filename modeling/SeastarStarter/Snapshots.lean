import SeastarStarter.Lib.Purge
import SeastarStarter.AuditTrail

/-!
# What the reading requests see

Where listing and finding leave a server as it is (`Clients.LooksOnly`), a request whose operation
is "read" leaves it as it is. Then, whatever the schedule, the other requests are handled as if
there had been no reading ones, and every reading request answers from one moment of theirs: the
server as it is after the first so many of the writes (`reads_see_snapshots`). What a request has
seen, one that began after its answer has seen too, and its own write as well; and nobody sees a
write that began after his answer. The documents of a cursor come with its command here; a server
that lets others in between the batches of a cursor is none of `Clients`.
-/

namespace SeastarStarter

open Tasks Lts

/-- The commands of the four reading functions. -/
def Command.looks : Command → Bool
  | .listDatabases | .listCollections _ | .find .. | .listIndexes .. => true
  | _ => false

/-- Listing and finding leave a server as it is. -/
def Clients.LooksOnly {S Id : Type} (clients : Clients S Id) : Prop :=
  ∀ i c s, c.looks = true → (clients.run i c s).2 = s

/-- The request's operation is "read". -/
def Reading (req : Request) : Prop := req.getQueryParam "operation" = CrudOperation.name .READ

instance (req : Request) : Decidable (Reading req) := inferInstanceAs (Decidable (_ = _))

section
variable {S Id : Type} {lib : Bsoncxx} {clients : Clients S Id} {i : Id} {req : Request}
  {rep : Reply}

theorem looks_of_asked_read {cls : MongoClass} {doc : Document} {c : Command}
    (h : askedCommand lib .READ cls doc = some c) : c.looks = true := by
  cases cls <;>
    simp only [askedCommand, Option.bind_eq_bind, Option.bind_eq_some_iff] at h
  case db =>
    obtain ⟨_, -, _, -, hc⟩ := h
    cases hc
    rfl
  case collection =>
    obtain ⟨_, -, _, -, _, -, hc⟩ := h
    cases hc
    rfl
  case document =>
    obtain ⟨_, -, _, -, _, -, _, -, _, -, hc⟩ := h
    cases hc
    rfl
  case index =>
    obtain ⟨_, -, _, -, _, -, hc⟩ := h
    cases hc
    rfl

theorem Reading.looks (hreq : Reading req) {c : Command} (h : Asked lib req c) :
    c.looks = true := by
  obtain ⟨-, o, cls, ho, -, hc⟩ := h
  obtain rfl : o = .READ := by
    have hname : o.name = CrudOperation.name .READ := ho.symm.trans hreq
    cases o <;> first | rfl | exact absurd hname (by decide)
  exact looks_of_asked_read hc

/-- A reading request leaves the server as it is. -/
theorem Reading.handle_db (hlooks : clients.LooksOnly) (hreq : Reading req) (w : World S) :
    ((handle lib (clients.driver i) req rep).run w).2.db = w.db := by
  rcases handle_world lib (clients.driver i) req rep w with
    hw | ⟨o, cls, c, hpost, ho, hcls, hc, -, hw⟩
  · rw [hw]
  · rw [hw]
    exact hlooks i c w.db (hreq.looks ⟨hpost, o, cls, ho, hcls, hc⟩)

/-- What a request does is told by the content of the server; not by what was issued before. -/
theorem handle_db {w w' : World S} (hdb : w.db = w'.db) :
    ((handle lib (clients.driver i) req rep).run w).1 =
        ((handle lib (clients.driver i) req rep).run w').1 ∧
      ((handle lib (clients.driver i) req rep).run w).2.db =
        ((handle lib (clients.driver i) req rep).run w').2.db := by
  refine handle_agree id hdb (fun p _ => by rw [hdb]) fun p c _ _ => ?_
  rw [hdb]
  exact ⟨rfl, rfl⟩

end

section
variable {S Id : Type} {lib : Bsoncxx} {clients : Clients S Id} {requests : Id → Request}
  {replies : Id → Reply}

theorem handleAlone_unwinds_reads (hlooks : clients.LooksOnly) :
    Unwinds (handleAlone lib clients requests replies) World.db
      (fun i => ¬ Reading (requests i)) where
  respects _ w hi := (not_not.1 hi).handle_db hlooks w
  outcome _ _ _ _ hdb := (handle_db hdb).1
  consistent _ _ _ _ hdb := (handle_db hdb).2

/-- The writes of an order alone bring the server to the same content. -/
theorem db_after_writes (hlooks : clients.LooksOnly) (w : World S) (order : List Id) :
    (after (handleAlone lib clients requests replies) w order).db =
      (after (handleAlone lib clients requests replies) w
        (order.filter fun i => ¬ Reading (requests i))).db :=
  view_purged (handleAlone_unwinds_reads hlooks) rfl order

/-- **Reading requests see snapshots.** Whatever the schedule, there is an order of the writing
requests alone, and for each request the part of it that the request has seen: its beginning up to
some place, a write's own place. The server is as after all of it, and each answer is that of the
request alone on the server as it is after what it has seen. Who began after an answer has seen
all that the answered one has seen, and what it wrote; the answered one has not seen what the
later one writes. -/
theorem reads_see_snapshots [DecidableEq Id] (hclients : clients.KeepsLookups)
    (hlooks : clients.LooksOnly) (w : World S) (schedule : List Id) (s : Serving S Id)
    (hex : exec (Serving.step lib clients requests replies) (Serving.begin w) schedule = some s) :
    ∃ (writes : List Id) (seen : Id → List Id), writes.Nodup ∧
      (∀ i ∈ writes, ¬ Reading (requests i)) ∧
      s.shared.db = (after (handleAlone lib clients requests replies) w writes).db ∧
      (∀ i, seen i <+: writes) ∧
      (∀ i reply, s.stage i = .finished reply →
        reply = (handleAlone lib clients requests replies i
          (after (handleAlone lib clients requests replies) w (seen i))).1 ∧
        (¬ Reading (requests i) → i ∈ writes ∧ seen i = upTo writes i)) ∧
      ∀ pre post m i j reply, schedule = pre ++ post →
        exec (Serving.step lib clients requests replies) (Serving.begin w) pre = some m →
        m.stage i = .finished reply → m.stage j = .running .received →
        seen i <+: seen j ∧ (¬ Reading (requests i) → i ∈ seen j) ∧ j ∉ seen i := by
  have hserial := serial_of_exec (handle_oneAccess lib clients requests replies hclients) hex
  refine ⟨s.order.filter fun i => ¬ Reading (requests i),
    fun i => (upTo s.order i).filter fun i => ¬ Reading (requests i),
    hserial.nodup.filter _, ?_, ?_, fun i => (upTo_prefix_order s.order i).filter _, ?_, ?_⟩
  · simp
  · rw [hserial.shared]
    exact db_after_writes hlooks w s.order
  · intro i reply hi
    obtain ⟨hmem, rfl⟩ := answered hclients hex hi
    refine ⟨(handle_db (db_after_writes hlooks w _)).1, fun hwrite => ⟨by simp [hmem, hwrite], ?_⟩⟩
    refine Eq.symm (upTo_filter ?_ s.order)
    exact hwrite
  · intro pre post m i j reply heq hpre hi hj
    rw [heq] at hex
    obtain ⟨m', hm', hpost⟩ := exec_append_some.1 hex
    obtain rfl := Option.some.inj (hpre.symm.trans hm')
    have hbefore : i ∈ upTo s.order j := mem_upTo_grown (order_grows hpost) (answered hclients hpre hi).1
      (notMem_order_of_received hclients hpre hj)
    refine ⟨(upTo_prefix_of_mem hbefore).filter _, fun hwrite => by simp [hbefore, hwrite], ?_⟩
    exact fun hmem => notMem_upTo_of_mem hbefore (List.mem_of_mem_filter hmem)

end

/-- A server that keeps the names of the databases that were created, and lists them. -/
def listing : Clients (List Bytes) Bool where
  database _ _ _ := .ok ()
  run _ c s :=
    match c with
    | .createCollection d _ _ => (.ok [], s ++ [d])
    | .dropDatabase d => (.ok [], s.erase d)
    | .listDatabases => (.ok (s.map fun d => [(text "name", .string d)]), s)
    | _ => (.ok [], s)

/-- A body that creates a database, and lists all of them. -/
def nameAndListAll : Document := [(text "name", .string (text "a")), (text "list_all", .bool true)]

def nameAndListAllText : Bytes := text "\x7b\"name\":\"a\",\"list_all\":true\x7d"

def createAndList : Bool → Request
  | true => postRequest (text "create") (text "db") nameAndListAllText
  | false => postRequest (text "read") (text "db") nameAndListAllText

def listedMeanwhile (schedule : List Bool) : Option (Serving (List Bytes) Bool) :=
  exec (Serving.step (.plain nameAndListAllText nameAndListAll) listing createAndList
    fun _ => newReply) (Serving.begin ⟨[], []⟩) schedule

theorem reads_see_snapshots_two : ∃ s, ∃ (writes : List Bool) (seen : Bool → List Bool),
    listedMeanwhile [true, false, true, false, true, true, false, false] = some s ∧
      (∀ i, seen i <+: writes) ∧
      s.shared.db = (after (handleAlone (.plain nameAndListAllText nameAndListAll) listing
        createAndList fun _ => newReply) ⟨[], []⟩ writes).db := by
  obtain ⟨s, hex⟩ := Option.isSome_iff_exists.1
    (show (listedMeanwhile [true, false, true, false, true, true, false, false]).isSome = true by
      decide +kernel)
  have hlooks : listing.LooksOnly := fun _ c s hc => by cases c <;> first | rfl | cases hc
  obtain ⟨writes, seen, -, -, hdb, hseen, -⟩ :=
    reads_see_snapshots (fun _ _ _ _ _ _ => rfl) hlooks ⟨[], []⟩ _ s hex
  exact ⟨s, writes, seen, hex, hseen, hdb⟩

end SeastarStarter
