import SeastarStarter.DBClients

/-!
# `main_fut` (main.cc:508-548)

The start-up brings up four sharded services one after the other and listens; after the stop
signal two of them are stopped. Any failure goes to one catch block, which only logs. What has
happened by a moment of the run is a prefix of `Process.events`.
-/

namespace SeastarStarter

variable {N : Nat}

/-- What fails in a run of `main_fut`. -/
structure MainFailures (N : Nat) where
  init : InitFailures N
  mutexStart : Failures N
  handlersStart : Failures N
  serverStart : Failures N
  setRoutes : Failures N
  listen : Failures N
  wait : Option Exn
  serverStop : Failures N
  handlersStop : Failures N

/-- `main_fut` behind `Init` (`:526-541`). -/
def serve (env : MainFailures N) : Fut Exn (Process N) Unit := do
  start .mutexes env.mutexStart
  start .handlers env.handlersStart
  start .server env.serverStart
  act [] env.setRoutes.first
  invokeOnAll env.listen .listening
  act [] env.wait
  stop .server env.serverStop
  stop .handlers env.handlersStop

/-- `main_fut` (`:508`). -/
def mainFut (env : MainFailures N) : Fut Exn (Process N) Unit :=
  tryCatch (do init env.init; serve env) fun _ => return

/-- What has happened when the future of `main_fut` resolves. -/
def mainEvents (env : MainFailures N) : List (Event N) :=
  ((mainFut env).run (Process.initial N)).2.events

/-! ## What can happen -/

/-- By now some shard of the HTTP server has come to listen. -/
def Listening (events : List (Event N)) : Prop := ∃ i, .listening i ∈ events

/-- The three phases of `Init` have succeeded on every shard. -/
structure InitSucceeded (events : List (Event N)) : Prop where
  started : .started .clients ∈ events
  constructed : ∀ i, .constructed i ∈ events
  recorded : ∀ i, .recorded i ∈ events

/-- The state moves on by events that all satisfy `P`. -/
def Emits (P : Event N → Prop) (p p' : Process N) : Prop :=
  ∃ events, p'.events = p.events ++ events ∧ ∀ e ∈ events, P e

instance (P : Event N → Prop) : Std.Refl (Emits P) := ⟨fun p => ⟨[], by simp, by simp⟩⟩

instance (P : Event N → Prop) : IsTrans (Process N) (Emits P) where
  trans := by
    rintro p p' p'' ⟨l, hl, hP⟩ ⟨l', hl', hP'⟩
    refine ⟨l ++ l', by rw [hl', hl, List.append_assoc], fun e he => ?_⟩
    rcases List.mem_append.1 he with he | he
    · exact hP e he
    · exact hP' e he

theorem moves_act {P : Event N → Prop} {events : List (Event N)} (h : ∀ e ∈ events, P e)
    (error : Option Exn) : Fut.Moves (Emits P) (act events error) := by
  intro p
  rw [run_act]
  exact ⟨events, rfl, h⟩

theorem moves_start {P : Event N → Prop} {service : Service} (h : P (.started service))
    (failures : Failures N) : Fut.Moves (Emits P) (start service failures) := by
  refine moves_act (fun e he => ?_) _
  split_ifs at he
  · obtain rfl := List.mem_singleton.1 he
    exact h
  · cases he

theorem moves_invokeOnAll {P : Event N → Prop} {done : Fin N → Event N} (h : ∀ i, P (done i))
    (failures : Failures N) : Fut.Moves (Emits P) (invokeOnAll failures done) := by
  refine moves_act (fun e he => ?_) _
  obtain ⟨i, -, rfl⟩ := mem_invoked.1 he
  exact h i

theorem moves_stop {P : Event N → Prop} {service : Service} (h : P (.stopped service))
    (failures : Failures N) : Fut.Moves (Emits P) (stop service failures) :=
  moves_act (fun e he => by rwa [List.mem_singleton.1 he]) _

/-! ## Serving without a database -/

/-- The events of `serve`: `main_fut` has no stop for the clients, and none for the mutexes. -/
def Event.ofServe : Event N → Prop
  | .started service => service ≠ .clients
  | .constructed _ | .recorded _ => False
  | .listening _ => True
  | .stopped service => service = .server ∨ service = .handlers

/-- The end of `serve`, from the signal on. -/
theorem moves_shutdown (env : MainFailures N) {P : Event N → Prop} (hserver : P (.stopped .server))
    (hhandlers : P (.stopped .handlers)) :
    Fut.Moves (Emits P) (do
      act [] env.wait
      stop .server env.serverStop
      stop .handlers env.handlersStop) :=
  (moves_act (by simp) _).bind fun _ => (moves_stop hserver _).bind fun _ => moves_stop hhandlers _

/-- `serve` without its first step. -/
theorem moves_serve_rest (env : MainFailures N) : Fut.Moves (Emits Event.ofServe) (do
      start .handlers env.handlersStart
      start .server env.serverStart
      act [] env.setRoutes.first
      invokeOnAll env.listen .listening
      act [] env.wait
      stop .server env.serverStop
      stop .handlers env.handlersStop) := by
  have hshutdown := moves_shutdown env (P := Event.ofServe) (Or.inl rfl) (Or.inr rfl)
  exact (moves_start nofun _).bind fun _ => (moves_start nofun _).bind fun _ =>
    (moves_act (by simp) _).bind fun _ => (moves_invokeOnAll (fun _ => trivial) _).bind
      fun _ => hshutdown

theorem moves_serve (env : MainFailures N) : Fut.Moves (Emits Event.ofServe) (serve env) :=
  (moves_start nofun _).bind fun _ => moves_serve_rest env

/-- The mutexes are the first service of `serve`: without them it does nothing. -/
theorem serve_mutexes (env : MainFailures N) (p : Process N) :
    ((∀ i, env.mutexStart i = none) →
      .started .mutexes ∈ ((serve env).run p).2.events) ∧
    ((¬ ∀ i, env.mutexStart i = none) → ((serve env).run p).2 = p) := by
  unfold serve
  constructor
  · intro hmutex
    rw [run_start_ok hmutex]
    obtain ⟨rest, hrest, -⟩ :=
      moves_serve_rest env { p with events := p.events ++ [.started .mutexes] }
    rw [hrest]
    simp
  · intro hmutex
    exact run_start_fails hmutex _ p

/-- The start-up behind `Init` gets to listen, on some shard. -/
structure Opens (env : MainFailures N) : Prop where
  mutexStart : ∀ i, env.mutexStart i = none
  handlersStart : ∀ i, env.handlersStart i = none
  serverStart : ∀ i, env.serverStart i = none
  setRoutes : ∀ i, env.setRoutes i = none
  listen : ∃ i, env.listen i = none

theorem listening_append {events events' : List (Event N)} :
    Listening (events ++ events') ↔ Listening events ∨ Listening events' := by
  simp only [Listening, List.mem_append, exists_or]

/-- After `m` the server listens exactly when it did before, or when `C` holds. -/
def Listens (m : Fut Exn (Process N) Unit) (C : Prop) : Prop :=
  ∀ p, Listening (m.run p).2.events ↔ Listening p.events ∨ C

theorem listens_start {k : Fut Exn (Process N) Unit} {C : Prop} (h : Listens k C)
    (service : Service) (failures : Failures N) :
    Listens (start service failures >>= fun _ => k) ((∀ i, failures i = none) ∧ C) := by
  intro p
  by_cases hstart : ∀ i, failures i = none
  · rw [run_start_ok hstart, h, listening_append]
    simp [Listening, hstart]
  · rw [run_start_fails hstart]
    simp [hstart]

theorem listens_act {k : Fut Exn (Process N) Unit} {C : Prop} (h : Listens k C)
    (failures : Failures N) :
    Listens (act [] failures.first >>= fun _ => k) ((∀ i, failures i = none) ∧ C) := by
  intro p
  rw [run_act_bind, ← Failures.first_eq_none]
  cases failures.first with
  | none => simpa using h p
  | some e => simp

/-- `listen` opens the server on the shards where it does not fail, whatever comes after. -/
theorem listens_listen {k : Fut Exn (Process N) Unit}
    (h : Fut.Moves (Emits fun e => ∀ i, e ≠ .listening i) k) (failures : Failures N) :
    Listens (invokeOnAll failures .listening >>= fun _ => k) (∃ i, failures i = none) := by
  intro p
  have hinvoked : Listening (((List.finRange N).filter fun i => (failures i).isNone).map .listening) ↔
      ∃ i, failures i = none := by
    unfold Listening
    simp
  unfold invokeOnAll
  rw [run_act_bind, ← hinvoked, ← listening_append]
  cases failures.first with
  | some e => exact Iff.rfl
  | none =>
    obtain ⟨rest, hrest, hquiet⟩ := h { p with events := p.events ++
      ((List.finRange N).filter fun i => (failures i).isNone).map .listening }
    show Listening (k.run _).2.events ↔ _
    rw [hrest, listening_append, or_iff_left]
    rintro ⟨i, hi⟩
    exact hquiet _ hi i rfl

theorem listens_serve (env : MainFailures N) : Listens (serve env) (Opens env) := by
  have hshutdown := moves_shutdown env (P := fun e => ∀ i, e ≠ .listening i) nofun nofun
  have h := listens_start (listens_start (listens_start (listens_act
    (listens_listen hshutdown env.listen) env.setRoutes)
    .server env.serverStart) .handlers env.handlersStart) .mutexes env.mutexStart
  intro p
  refine (h p).trans (or_congr_right ⟨?_, ?_⟩)
  · rintro ⟨hmutex, hhandlers, hserver, hroutes, hlisten⟩
    exact ⟨hmutex, hhandlers, hserver, hroutes, hlisten⟩
  · rintro ⟨hmutex, hhandlers, hserver, hroutes, hlisten⟩
    exact ⟨hmutex, hhandlers, hserver, hroutes, hlisten⟩

/-- `main_fut` ends with `Init` when the third phase fails, and otherwise goes on to `serve`,
whatever the first two did. -/
theorem mainEvents_cases (env : MainFailures N) :
    (env.init.ThirdFails ∧ mainEvents env = initEvents env.init) ∨
      (¬ env.init.ThirdFails ∧ ∃ rest, mainEvents env = initEvents env.init ++ rest ∧
        (∀ e ∈ rest, e.ofServe) ∧ (Listening rest ↔ Opens env) ∧
        if ∀ i, env.mutexStart i = none then .started .mutexes ∈ rest else rest = []) := by
  have hmain : mainEvents env =
      ((init env.init >>= fun _ => serve env).run (Process.initial N)).2.events := by
    unfold mainEvents mainFut
    rw [Fut.run_tryCatch]
    rcases (init env.init >>= fun _ => serve env).run (Process.initial N) with ⟨e | u, p⟩ <;> rfl
  have hfails : env.init.ThirdFails ↔
      ¬ ∃ u, (initResult env.init (Process.initial N).dbClients).1 = .ok u := by
    rw [initResult_ok_iff]
    unfold InitFailures.ThirdFails
    push Not
    rfl
  have hinit := run_init env.init (Process.initial N)
  rw [hmain, hfails]
  cases hresult : (initResult env.init (Process.initial N).dbClients).1 with
  | error e =>
    rw [hresult] at hinit
    rw [Fut.run_bind_error hinit]
    exact Or.inl ⟨nofun, rfl⟩
  | ok u =>
    rw [hresult] at hinit
    rw [Fut.run_bind_ok hinit]
    obtain ⟨rest, hrest, hserve⟩ := moves_serve env
      ⟨(initResult env.init (Process.initial N).dbClients).2, initEvents env.init⟩
    have hlistens := listens_serve env
      ⟨(initResult env.init (Process.initial N).dbClients).2, initEvents env.init⟩
    have hnot : ¬ Listening (initEvents env.init) := fun ⟨i, hi⟩ =>
      (not_mem_initEvents env.init).1 i hi
    have hmutexes := serve_mutexes env
      ⟨(initResult env.init (Process.initial N).dbClients).2, initEvents env.init⟩
    rw [hrest, listening_append] at hlistens
    refine Or.inr ⟨not_not.2 ⟨u, rfl⟩, rest, hrest, hserve, by simpa [hnot] using hlistens, ?_⟩
    split_ifs with hmutex
    · have hmem := hmutexes.1 hmutex
      rw [hrest] at hmem
      refine (List.mem_append.1 hmem).resolve_left fun hinit => ?_
      exact nomatch (started_mem_initEvents.1 hinit).1
    · have hsame := congrArg Process.events (hmutexes.2 hmutex)
      rw [hrest] at hsame
      exact List.append_right_eq_self.1 hsame

/-- Whenever the server listens, all of `Init` has succeeded. -/
def ServesWithDatabase (events : List (Event N)) : Prop :=
  ∀ moment, moment <+: events → Listening moment → InitSucceeded moment

theorem Listening.mono {events events' : List (Event N)} (h : Listening events)
    (hsub : events ⊆ events') : Listening events' :=
  h.imp fun _ hi => hsub hi

theorem InitSucceeded.mono {events events' : List (Event N)} (h : InitSucceeded events)
    (hsub : events ⊆ events') : InitSucceeded events' :=
  ⟨hsub h.started, fun i => hsub (h.constructed i), fun i => hsub (h.recorded i)⟩

/-- **When the program serves without a database.** In every moment of a run in which the server
listens all phases of `Init` have succeeded, exactly when the first two do not fail or what comes
after `Init` keeps the server from listening. -/
theorem serves_with_database_iff (env : MainFailures N) :
    ServesWithDatabase (mainEvents env) ↔
      ((∀ i, env.init.clientsStart i = none) ∧ ∀ i, env.init.constructClient i = none) ∨
        ¬ Opens env := by
  have hnot : ¬ Listening (initEvents env.init) := fun ⟨i, hi⟩ =>
    (not_mem_initEvents env.init).1 i hi
  rcases mainEvents_cases env with ⟨⟨hstart, hconstruct, -⟩, hmain⟩ |
    ⟨hlog, rest, hmain, hserve, hrest, -⟩
  · rw [hmain]
    exact iff_of_true (fun moment hmoment hlistens => absurd (hlistens.mono hmoment.subset) hnot)
      (Or.inl ⟨hstart, hconstruct⟩)
  · rw [hmain]
    constructor
    · intro h
      by_contra hcond
      obtain ⟨hphases, hopens⟩ := not_or.1 hcond
      have hlistens : Listening (initEvents env.init ++ rest) :=
        listening_append.2 (Or.inr (hrest.2 (not_not.1 hopens)))
      have hsucceeded := h _ List.prefix_rfl hlistens
      refine hphases ⟨?_, fun i => ?_⟩
      · -- `serve` starts other services only, so the clients were started by `Init`
        rcases List.mem_append.1 hsucceeded.started with hmem | hmem
        · exact (started_mem_initEvents.1 hmem).2
        · exact absurd rfl (hserve _ hmem)
      · rcases List.mem_append.1 (hsucceeded.constructed i) with hmem | hmem
        · exact (constructed_mem_initEvents.1 hmem).2
        · exact (hserve _ hmem).elim
    · rintro (⟨hstart, hconstruct⟩ | hopens) moment hmoment hlistens
      · have hlog : ∀ i, env.init.connLog i = none := by
          by_contra hfails
          exact hlog ⟨hstart, hconstruct, hfails⟩
        have hsucceeded : InitSucceeded (initEvents env.init) :=
          ⟨started_mem_initEvents.2 ⟨rfl, hstart⟩,
            fun i => constructed_mem_initEvents.2 ⟨hstart, hconstruct i⟩,
            fun i => recorded_mem_initEvents.2 ⟨hstart, hconstruct, hlog i⟩⟩
        -- a moment in which the server listens comes after all of `Init`
        rcases List.prefix_or_prefix_of_prefix hmoment (List.prefix_append _ rest) with hbefore | hafter
        · exact absurd (hlistens.mono hbefore.subset) hnot
        · exact hsucceeded.mono hafter.subset
      · rcases listening_append.1 (hlistens.mono hmoment.subset) with h | h
        · exact absurd h hnot
        · exact absurd (hrest.1 h) hopens

/-- Nothing fails. -/
def noFailures (N : Nat) : MainFailures N where
  init := ⟨fun _ => none, fun _ => none, fun _ => none⟩
  mutexStart := fun _ => none
  handlersStart := fun _ => none
  serverStart := fun _ => none
  setRoutes := fun _ => none
  listen := fun _ => none
  wait := none
  serverStop := fun _ => none
  handlersStop := fun _ => none

/-- The client of the only shard cannot be made from the URI. -/
def badUri : MainFailures 1 :=
  { noFailures 1 with
    init := ⟨fun _ => none, fun _ => some (.driver (text "invalid URI")), fun _ => none⟩ }

/-- The server listens although no client could be constructed. -/
theorem not_always_with_database :
    ¬ ∀ N, ∀ env : MainFailures N, ServesWithDatabase (mainEvents env) := by
  intro h
  have hlistens : Listening (mainEvents badUri) := ⟨0, by decide⟩
  have hconstructed := (h 1 badUri _ List.prefix_rfl hlistens).constructed 0
  exact absurd hconstructed (by decide)

/-! ## Shutting down -/

/-- Every service that was started has been stopped once, the server before the handlers and the
handlers before the clients. -/
structure ShutDown (events : List (Event N)) : Prop where
  once : ∀ service, .started service ∈ events → events.count (.stopped service) = 1
  serverFirst : .started .server ∈ events → .started .handlers ∈ events →
    [.stopped .server, .stopped .handlers].Sublist events
  handlersFirst : .started .handlers ∈ events → .started .clients ∈ events →
    [.stopped .handlers, .stopped .clients].Sublist events

/-- **When the shutdown is complete.** `main_fut` resolves with every started service stopped, in
order, only where neither of the two services it never stops was started: the clients and the
mutexes. -/
theorem shutDown_iff (env : MainFailures N) :
    ShutDown (mainEvents env) ↔
      (¬ ∀ i, env.init.clientsStart i = none) ∧ ¬ ∀ i, env.mutexStart i = none := by
  -- nothing in the run stops either of them
  have hnever : ∀ service, service = .clients ∨ service = .mutexes →
      .stopped service ∉ mainEvents env := by
    intro service hservice hmem
    rcases mainEvents_cases env with ⟨-, hmain⟩ | ⟨-, rest, hmain, hserve, -, -⟩
    · rw [hmain] at hmem
      exact (not_mem_initEvents env.init).2 service hmem
    · rw [hmain] at hmem
      rcases List.mem_append.1 hmem with hmem | hmem
      · exact (not_mem_initEvents env.init).2 service hmem
      · rcases hservice with rfl | rfl <;> rcases hserve _ hmem with h | h <;> cases h
  have hstarted : ∀ service, service = .clients ∨ service = .mutexes →
      .started service ∈ mainEvents env → ¬ ShutDown (mainEvents env) := by
    intro service hservice hmem h
    have hcount := h.once service hmem
    rw [List.count_eq_zero_of_not_mem (hnever service hservice)] at hcount
    cases hcount
  rcases mainEvents_cases env with ⟨⟨hclients, -, -⟩, hmain⟩ | ⟨-, rest, hmain, -, -, hmutexes⟩
  · refine iff_of_false (hstarted .clients (Or.inl rfl) ?_) fun h => h.1 hclients
    rw [hmain]
    exact started_mem_initEvents.2 ⟨rfl, hclients⟩
  · by_cases hclients : ∀ i, env.init.clientsStart i = none
    · refine iff_of_false (hstarted .clients (Or.inl rfl) ?_) fun h => h.1 hclients
      rw [hmain]
      exact List.mem_append_left _ (started_mem_initEvents.2 ⟨rfl, hclients⟩)
    by_cases hmutex : ∀ i, env.mutexStart i = none
    · refine iff_of_false (hstarted .mutexes (Or.inr rfl) ?_) fun h => h.2 hmutex
      rw [if_pos hmutex] at hmutexes
      rw [hmain]
      exact List.mem_append_right _ hmutexes
    · rw [if_neg hmutex] at hmutexes
      have hnothing : mainEvents env = [] := by
        obtain ⟨e, he⟩ := Failures.exists_first hclients
        rw [hmain, hmutexes, initEvents, he]
        rfl
      rw [hnothing]
      exact iff_of_true ⟨nofun, nofun, nofun⟩ ⟨hclients, hmutex⟩

/-- After a run without any failure the clients are still there. -/
theorem not_always_shutDown : ¬ ∀ N, ∀ env : MainFailures N, ShutDown (mainEvents env) := by
  intro h
  have hcount := (h 1 (noFailures 1)).once .clients (by decide)
  exact absurd hcount (by decide)

end SeastarStarter
