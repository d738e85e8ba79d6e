import SeastarStarter.Requests

/-!
# The commands that requests leave behind

`World.issued` is what was sent. However the requests were handled at the same time, every entry
of it belongs to one request, which asked for it; the content of the server is what those commands
make of the content at the beginning, one after the other; and a write was answered "ok" exactly
when its command is there and returned (`audit_trail`).

| here | |
|---|---|
| `replay`, `Faithful` | a trail run on a server of its own |
| `added` | what one request adds to the log at its turn |
| `trail` | what the requests of an order add, with the names of the requests |
-/

namespace SeastarStarter

open Tasks Lts

section
variable {S Id : Type} (clients : Clients S Id)

/-- The server after the commands of a trail, each through the client of its request. -/
def replay (s : S) (trail : List (Id × Command × Bool)) : S :=
  trail.foldl (fun s entry => (clients.run entry.1 entry.2.1 s).2) s

/-- Each command of the trail returns where the trail says so, and throws where it does not. -/
def Faithful : S → List (Id × Command × Bool) → Prop
  | _, [] => True
  | s, (i, c, returned) :: trail =>
    returned = (clients.run i c s).1.isOk ∧ Faithful (clients.run i c s).2 trail

end

/-- What a request asks for, by its query parameters and its body. -/
def Asked (lib : Bsoncxx) (req : Request) (c : Command) : Prop :=
  req.method = text "POST" ∧ ∃ o cls, req.getQueryParam "operation" = CrudOperation.name o ∧
    req.getQueryParam "class" = MongoClass.name cls ∧
    askedCommand lib o cls (parseBody lib req.content) = some c

section
variable {S Id : Type} (lib : Bsoncxx) (clients : Clients S Id)
  (requests : Id → Request) (replies : Id → Reply)

def added (i : Id) (w : World S) : List (Command × Bool) :=
  (handleAlone lib clients requests replies i w).2.issued.drop w.issued.length

def trail : World S → List Id → List (Id × Command × Bool)
  | _, [] => []
  | w, i :: order =>
    (added lib clients requests replies i w).map (Prod.mk i) ++
      trail (handleAlone lib clients requests replies i w).2 order

/-- A request adds nothing and changes nothing, or it adds the command it asks for. -/
theorem added_cases (i : Id) (w : World S) :
    (added lib clients requests replies i w = [] ∧
      (handleAlone lib clients requests replies i w).2 = w) ∨
    ∃ c, Asked lib (requests i) c ∧
      added lib clients requests replies i w = [(c, (clients.run i c w.db).1.isOk)] ∧
      (handleAlone lib clients requests replies i w).2 =
        ((MongoDBInterface.issue (clients.driver i) c).run w).2 := by
  unfold added handleAlone
  rcases handle_world lib (clients.driver i) (requests i) (replies i) w with
    hw | ⟨o, cls, c, hpost, ho, hcls, hc, -, hw⟩
  · exact Or.inl ⟨by simp [hw], hw⟩
  · refine Or.inr ⟨c, ⟨hpost, o, cls, ho, hcls, hc⟩, ?_, hw⟩
    rw [hw]
    show (w.issued ++ [(c, (clients.run i c w.db).1.isOk)]).drop w.issued.length = _
    simp

theorem issued_handleAlone (i : Id) (w : World S) :
    (handleAlone lib clients requests replies i w).2.issued =
      w.issued ++ added lib clients requests replies i w := by
  rcases added_cases lib clients requests replies i w with ⟨hadded, hw⟩ | ⟨c, -, hadded, hw⟩
  · simp [hadded, hw]
  · rw [hadded, hw]
    rfl

/-- What was issued in an order of requests is their trail. -/
theorem issued_after (w : World S) (order : List Id) :
    (after (handleAlone lib clients requests replies) w order).issued =
      w.issued ++ (trail lib clients requests replies w order).map Prod.snd := by
  induction order generalizing w with
  | nil => simp [trail]
  | cons i order ih =>
    rw [after_cons, ih, issued_handleAlone lib clients requests replies]
    simp [trail, Function.comp_def]

/-- The trail tells the content of the server. -/
theorem replay_trail (w : World S) (order : List Id) :
    (after (handleAlone lib clients requests replies) w order).db =
      replay clients w.db (trail lib clients requests replies w order) ∧
    Faithful clients w.db (trail lib clients requests replies w order) := by
  induction order generalizing w with
  | nil => simp [trail, replay, Faithful]
  | cons i order ih =>
    obtain ⟨hdb, hfaithful⟩ := ih (handleAlone lib clients requests replies i w).2
    rw [after_cons, hdb]
    rcases added_cases lib clients requests replies i w with ⟨hadded, hw⟩ | ⟨c, -, hadded, hw⟩
    · rw [hw] at hfaithful ⊢
      simp [trail, hadded, hw, hfaithful]
    · rw [hw] at hfaithful ⊢
      simp only [trail, hadded, hw, List.map_cons, List.map_nil, List.cons_append, List.nil_append]
      exact ⟨rfl, rfl, hfaithful⟩

/-- Each request adds one entry at most, in the order of the requests. -/
theorem trail_sublist (w : World S) (order : List Id) :
    ((trail lib clients requests replies w order).map Prod.fst).Sublist order := by
  induction order generalizing w with
  | nil => simp [trail]
  | cons i order ih =>
    have hrest := ih (handleAlone lib clients requests replies i w).2
    rcases added_cases lib clients requests replies i w with ⟨hadded, -⟩ | ⟨c, -, hadded, -⟩
    · simpa [trail, hadded] using hrest.cons i
    · simpa [trail, hadded] using hrest

end

section
variable {S Id : Type} {lib : Bsoncxx} {clients : Clients S Id}
  {requests : Id → Request} {replies : Id → Reply}

theorem asked_of_mem_trail {w : World S} {order : List Id} {i : Id} {c : Command} {returned : Bool}
    (h : (i, c, returned) ∈ trail lib clients requests replies w order) :
    Asked lib (requests i) c := by
  induction order generalizing w with
  | nil => simp [trail] at h
  | cons j order ih =>
    rcases List.mem_append.1 h with h | h
    · rcases added_cases lib clients requests replies j w with ⟨hadded, -⟩ | ⟨c', hasked, hadded, -⟩
      · simp [hadded] at h
      · obtain ⟨rfl, rfl, rfl⟩ : j = i ∧ c' = c ∧ (clients.run j c' w.db).1.isOk = returned := by
          simpa [hadded, eq_comm] using h
        exact hasked
    · exact ih h

/-- The entries of a request are those it adds at its turn. -/
theorem mem_trail [DecidableEq Id] {w : World S} {order : List Id} (hnodup : order.Nodup) {i : Id}
    (hi : i ∈ order) {entry : Command × Bool} :
    (i, entry) ∈ trail lib clients requests replies w order ↔
      entry ∈ added lib clients requests replies i
        (after (handleAlone lib clients requests replies) w (upTo order i)) := by
  induction order generalizing w with
  | nil => simp at hi
  | cons j order ih =>
    obtain ⟨hj, hnodup⟩ := List.nodup_cons.1 hnodup
    have hlater : ∀ {w' : World S} {k : Id}, k ∉ order →
        (k, entry) ∉ trail lib clients requests replies w' order := fun hk hmem =>
      hk ((trail_sublist lib clients requests replies _ _).subset (List.mem_map_of_mem hmem))
    simp only [trail, List.mem_append]
    by_cases hji : j = i
    · subst hji
      simp [upTo, hlater hj]
    · have hi : i ∈ order := by simpa [Ne.symm hji] using hi
      simp only [upTo, hji, if_false, after_cons]
      rw [← ih hnodup hi]
      simp [hji]

/-- A write says ok exactly when its command goes into the log as one that returned. -/
theorem saysOk_iff_added (hlib : lib.Prints) {i : Id} {o : CrudOperation} {cls : MongoClass}
    {c : Command} (hreq : (requests i).Asks o cls) (ho : o ≠ .READ)
    (hc : askedCommand lib o cls (parseBody lib (requests i).content) = some c)
    (hskip : c.skipped = false) (w : World S) :
    SaysOk lib (handleAlone lib clients requests replies i w).1 ↔
      (c, true) ∈ added lib clients requests replies i w := by
  have hissued : SaysOk lib (handleAlone lib clients requests replies i w).1 ↔
      (handleAlone lib clients requests replies i w).2.issued = w.issued ++ [(c, true)] := by
    rw [askedCommand_eq] at hc
    obtain ⟨p, hplan, hcommand⟩ := commandOf_eq_some.1 hc
    obtain ⟨dbname, c', rfl, hdb⟩ := armPlan_write ho hplan
    cases hcommand
    unfold handleAlone
    rw [hreq.handle_run, hplan]
    refine (saysOk_write_iff (clients.driver i) (replies i) hlib hdb w).trans ?_
    unfold Acknowledgeable
    simp [hskip]
  rw [hissued, issued_handleAlone, List.append_cancel_left_eq]
  rcases added_cases lib clients requests replies i w with ⟨hadded, -⟩ | ⟨c', -, hadded, -⟩
  · simp [hadded]
  · rw [hadded, List.mem_singleton]
    constructor
    · intro h
      exact (List.cons.inj h).1.symm
    · intro h
      rw [h]

/-- **The log of a server tells everything that its requests did to it.** At every moment of every
schedule each entry belongs to one request, which asked for it, and each request has one at most;
the content of the server is the replay of these commands, each through the client of its request;
and a write that is not left out by its guard was answered "ok" exactly when its command is in the
log as one that returned. -/
theorem audit_trail [DecidableEq Id] (hclients : clients.KeepsLookups) (hlib : lib.Prints)
    (w : World S) (schedule : List Id) (s : Serving S Id)
    (hex : exec (Serving.step lib clients requests replies) (Serving.begin w) schedule = some s) :
    ∃ trail : List (Id × Command × Bool),
      s.shared.issued = w.issued ++ trail.map Prod.snd ∧
      s.shared.db = replay clients w.db trail ∧ Faithful clients w.db trail ∧
      (trail.map Prod.fst).Nodup ∧
      (∀ i c returned, (i, c, returned) ∈ trail → Asked lib (requests i) c) ∧
      ∀ i reply o cls c, s.stage i = .finished reply → (requests i).Asks o cls → o ≠ .READ →
        askedCommand lib o cls (parseBody lib (requests i).content) = some c → c.skipped = false →
        (SaysOk lib reply ↔ (i, c, true) ∈ trail) := by
  have hserial := serial_of_exec (handle_oneAccess lib clients requests replies hclients) hex
  obtain ⟨hdb, hfaithful⟩ := replay_trail lib clients requests replies w s.order
  refine ⟨trail lib clients requests replies w s.order, ?_, ?_, hfaithful,
    (trail_sublist lib clients requests replies w s.order).nodup hserial.nodup,
    fun i c returned => asked_of_mem_trail, ?_⟩
  · rw [hserial.shared, issued_after]
  · rw [hserial.shared, hdb]
  · intro i reply o cls c hi hreq ho hc hskip
    obtain ⟨hmem, rfl⟩ := answered hclients hex hi
    rw [saysOk_iff_added hlib hreq ho hc hskip, mem_trail hserial.nodup hmem]

end

theorem audit_trail_two : ∃ s, ∃ trail : List (Bool × Command × Bool),
    handledTogether [true, false, true, false, true, false, true] = some s ∧
      s.shared.issued = [] ++ trail.map Prod.snd ∧
      s.shared.db = replay oneWithoutClient () trail := by
  obtain ⟨s, hex⟩ := Option.isSome_iff_exists.1
    (show (handledTogether [true, false, true, false, true, false, true]).isSome = true by
      decide +kernel)
  obtain ⟨trail, hissued, hdb, -⟩ :=
    audit_trail oneWithoutClient_keepsLookups (Bsoncxx.plain_lawful _ _).toPrints ⟨(), []⟩ _ s hex
  exact ⟨s, trail, hex, hissued, hdb⟩

end SeastarStarter
