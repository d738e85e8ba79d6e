import SeastarStarter.Lib.Purge
import SeastarStarter.AuditTrail

/-!
# Requests on different databases

Every arm but the listing of databases looks up one database and sends its command there
(`armPlan_database`). A server keeps its databases apart (`Clients.Isolates`); then `handle` does
so as well: what happens to a database, and what the requests on it are answered, is as if there
had been no requests on other databases, whatever the schedule (`tenant_isolated`).

| here | |
|---|---|
| `part s d` | the content of database `d` on a server |
| `OnDatabase lib d req` | `req` asks for a command on `d` |
-/

namespace SeastarStarter

open Tasks Lts

/-- A server keeps its databases apart: a command on one of them leaves the others alone, and
depends on that one only; and a client finds a database by what it is itself. -/
structure Clients.Isolates {S V Id : Type} (clients : Clients S Id) (part : S → Bytes → V) :
    Prop where
  frame : ∀ i c s d, c.database ≠ some d → part (clients.run i c s).2 d = part s d
  outcome : ∀ i c s s' d, c.database = some d → part s d = part s' d →
    (clients.run i c s).1 = (clients.run i c s').1
  content : ∀ i c s s' d, c.database = some d → part s d = part s' d →
    part (clients.run i c s).2 d = part (clients.run i c s').2 d
  lookup : ∀ i s s' d, part s d = part s' d → clients.database i s d = clients.database i s' d

/-- The request asks for a command on database `d`. -/
def OnDatabase (lib : Bsoncxx) (d : Bytes) (req : Request) : Prop :=
  ∃ c, Asked lib req c ∧ c.database = some d

section
variable {S V Id : Type} {lib : Bsoncxx} {clients : Clients S Id} {part : S → Bytes → V}
  {i : Id} {req : Request} {rep : Reply} {d : Bytes}

/-- A request on another database, or on none, leaves `d` as it is. -/
theorem handle_frame (hiso : clients.Isolates part) (hreq : ¬ OnDatabase lib d req) (w : World S) :
    part ((handle lib (clients.driver i) req rep).run w).2.db d = part w.db d := by
  rcases handle_world lib (clients.driver i) req rep w with
    hw | ⟨o, cls, c, hpost, ho, hcls, hc, -, hw⟩
  · rw [hw]
  · rw [hw]
    exact hiso.frame i c w.db d fun hdb => hreq ⟨c, ⟨hpost, o, cls, ho, hcls, hc⟩, hdb⟩

/-- The plan of a request on `d`: it looks `d` up, and comes to a command on `d`. -/
theorem OnDatabase.plan (hreq : OnDatabase lib d req) :
    ∃ p c, req.method = text "POST" ∧ requestPlan lib req = .ok (.ok p) ∧ p.command = .ok c ∧
      p.database = some d ∧ c.database = some d := by
  obtain ⟨c, ⟨hpost, o, cls, ho, hcls, hc⟩, hdb⟩ := hreq
  rw [askedCommand_eq] at hc
  obtain ⟨p, hplan, hcommand⟩ := commandOf_eq_some.1 hc
  refine ⟨p, c, hpost, ?_, hcommand, ?_, hdb⟩
  · rwa [requestPlan_eq (getOperationType_eq_ok.2 ho) (getMongoClass_eq_ok.2 hcls)]
  · rw [armPlan_database hplan hcommand, hdb]

/-- A request on `d` does what it does on every server with the same `d`. -/
theorem handle_part (hiso : clients.Isolates part) (hreq : OnDatabase lib d req) {w w' : World S}
    (hpart : part w.db d = part w'.db d) :
    ((handle lib (clients.driver i) req rep).run w).1 =
        ((handle lib (clients.driver i) req rep).run w').1 ∧
      part ((handle lib (clients.driver i) req rep).run w).2.db d =
        part ((handle lib (clients.driver i) req rep).run w').2.db d := by
  obtain ⟨p, c, -, hplan, hcommand, hp, hc⟩ := hreq.plan
  refine handle_agree (fun s => part s d) hpart (fun q hq => ?_) fun q c' hq hc' => ?_
  · obtain rfl : p = q := Except.ok.inj (Except.ok.inj (hplan.symm.trans hq))
    unfold Plan.reached Plan.lookedUp
    have hlookup : (clients.driver i).database w.db d = (clients.driver i).database w'.db d :=
      hiso.lookup i _ _ d hpart
    rw [hp]
    simp only [hlookup]
  · obtain rfl : p = q := Except.ok.inj (Except.ok.inj (hplan.symm.trans hq))
    obtain rfl : c = c' := Except.ok.inj (hcommand.symm.trans hc')
    exact ⟨hiso.outcome i c _ _ d hc hpart, hiso.content i c _ _ d hc hpart⟩

end

section
variable {S V Id : Type} {clients : Clients S Id} {part : S → Bytes → V}

theorem handleAlone_unwinds (lib : Bsoncxx) (hiso : clients.Isolates part) (requests : Id → Request)
    (replies : Id → Reply) (d : Bytes) :
    Unwinds (handleAlone lib clients requests replies) (fun w => part w.db d)
      (fun i => OnDatabase lib d (requests i)) where
  respects _ w hi := handle_frame hiso hi w
  outcome _ _ _ hi hpart := (handle_part hiso hi hpart).1
  consistent _ _ _ hi hpart := (handle_part hiso hi hpart).2

variable {lib : Bsoncxx} {requests : Id → Request} {replies : Id → Reply}

/-- **The requests on one database are handled as if there were no others.** Whatever the
schedule, there is an order of requests on `d` alone after which `d` is as it is now, and in which
each of those that have been answered got this answer at its place. -/
theorem tenant_isolated [DecidableEq Id] (hclients : clients.KeepsLookups)
    (hiso : clients.Isolates part) (w : World S) (schedule : List Id) (s : Serving S Id)
    (hex : exec (Serving.step lib clients requests replies) (Serving.begin w) schedule = some s)
    (d : Bytes) :
    ∃ order : List Id, order.Nodup ∧ (∀ i ∈ order, OnDatabase lib d (requests i)) ∧
      part s.shared.db d = part (after (handleAlone lib clients requests replies) w order).db d ∧
      ∀ i reply, s.stage i = .finished reply → OnDatabase lib d (requests i) →
        i ∈ order ∧ reply = (handleAlone lib clients requests replies i
          (after (handleAlone lib clients requests replies) w (upTo order i))).1 := by
  classical
  have hserial := serial_of_exec (handle_oneAccess lib clients requests replies hclients) hex
  have hunwinds := handleAlone_unwinds lib hiso requests replies d
  refine ⟨s.order.filter fun i => OnDatabase lib d (requests i), hserial.nodup.filter _, ?_, ?_, ?_⟩
  · simp
  · rw [hserial.shared]
    exact view_purged hunwinds rfl s.order
  · intro i reply hi hon
    obtain ⟨hmem, rfl⟩ := answered hclients hex hi
    exact ⟨by simp [hmem, hon], outcome_purged hunwinds rfl s.order hon⟩

end

/-- A server that keeps, of each database, the names of the collections that were created. -/
def naming : Clients (Bytes → List Bytes) Bool where
  database _ _ _ := .ok ()
  run _ c s :=
    match c with
    | .createCollection d coll _ =>
      if coll ∈ s d then (.error (.driver (text "Collection already exists.")), s)
      else (.ok [], Function.update s d (s d ++ [coll]))
    | .dropDatabase d => (.ok [], Function.update s d [])
    | _ => (.ok [], s)

theorem naming_isolates : naming.Isolates fun s d => s d where
  frame _ c s d h := by
    cases c with
    | createCollection d' coll options =>
      have hd : d ≠ d' := fun heq => h (heq ▸ rfl)
      by_cases hmem : coll ∈ s d' <;> simp [naming, hmem, hd]
    | dropDatabase d' =>
      have hd : d ≠ d' := fun heq => h (heq ▸ rfl)
      simp [naming, hd]
    | _ => rfl
  outcome _ c s s' d h hpart := by
    cases c with
    | createCollection d' coll options =>
      obtain rfl : d' = d := Option.some.inj h
      by_cases hmem : coll ∈ s' d' <;> simp [naming, hmem, hpart]
    | _ => rfl
  content _ c s s' d h hpart := by
    cases c with
    | createCollection d' coll options =>
      obtain rfl : d' = d := Option.some.inj h
      by_cases hmem : coll ∈ s' d' <;> simp [naming, hmem, hpart]
    | dropDatabase d' =>
      obtain rfl : d' = d := Option.some.inj h
      simp [naming]
    | _ => exact hpart
  lookup _ _ _ _ _ := rfl

/-- A body that creates database `a`, and deletes database `b`. -/
def twoNames : Document :=
  [(text "name", .string (text "a")), (text "dbname", .string (text "b"))]

def twoNamesText : Bytes := text "\x7b\"name\":\"a\",\"dbname\":\"b\"\x7d"

def handledApart (schedule : List Bool) : Option (Serving (Bytes → List Bytes) Bool) :=
  exec (Serving.step (.plain twoNamesText twoNames) naming (createAndDelete twoNamesText)
    fun _ => newReply) (Serving.begin ⟨fun _ => [], []⟩) schedule

theorem tenant_isolated_two : ∃ s order,
    handledApart [true, false, true, false, false, true, false, true] = some s ∧ order.Nodup ∧
      s.shared.db (text "a") = (after (handleAlone (.plain twoNamesText twoNames) naming
        (createAndDelete twoNamesText) fun _ => newReply) ⟨fun _ => [], []⟩ order).db (text "a") := by
  obtain ⟨s, hex⟩ := Option.isSome_iff_exists.1
    (show (handledApart [true, false, true, false, false, true, false, true]).isSome = true by
      decide +kernel)
  obtain ⟨order, hnodup, -, hdb, -⟩ :=
    tenant_isolated (fun _ _ _ _ _ _ => rfl) naming_isolates ⟨fun _ => [], []⟩ _ s hex (text "a")
  exact ⟨s, order, hex, hnodup, hdb⟩

end SeastarStarter
