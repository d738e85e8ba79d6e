import SeastarStarter.Requests
import SeastarStarter.Serving

/-!
# The program: `main_fut` and the requests on its server

`Lifecycle` counts the requests that the shards have taken, and `Serving` runs their coroutines.
Here the two are one system, on the database server as `DBClients::Init` has left it, each request
with the client of its shard:

| `Act` | |
|---|---|
| `life a` | a step of `main_fut`, of a shard that starts or stops to listen, or a signal |
| `take i` | the shard of request `i` takes it and calls `handle` |
| `run i` | the coroutine of `handle` goes on |
| `answer i` | `handle` is over, and its reply is sent |

A coroutine gets no further than `co_await db_clients()` where `clients.start()` has failed: there
is no `clients.local()` then. None goes on when `main_fut` is over and the process exits. Each of
the two sees a run of its own (`life_of_exec`, `serving_of_exec`). Together: the server's `stop()`
drains the requests (`requests_drained`), and the program comes to rest (`program_rests`).
-/

namespace SeastarStarter

open Tasks Lts

/-! ## The steps of one request -/

/-- The steps a coroutine of `handle` has before it at most. -/
def HandleState.left : HandleState → Nat
  | .received => 4
  | .calling _ => 3
  | .issuing .. => 2
  | .returned _ => 1

def handleLeft : Stage HandleState (Except Exn Reply) → Nat
  | .running l => l.left
  | .finished _ => 0

theorem handleStep_left {S : Type} (lib : Bsoncxx) (drv : Driver S) (req : Request) (rep : Reply)
    (l : HandleState) (w : World S) : handleLeft (handleStep lib drv req rep l w).1 + 1 ≤ l.left := by
  cases l with
  | received =>
    simp only [handleStep]
    split_ifs
    · simp [handleLeft, HandleState.left]
    · rcases requestPlan lib req with e | e | p <;> simp [handleLeft, HandleState.left]
  | calling p =>
    simp only [handleStep]
    rcases p.reached drv w.db with e | c
    · simp [handleLeft, HandleState.left]
    · dsimp only
      split_ifs <;> simp [handleLeft, HandleState.left]
  | issuing p c => simp [handleStep, handleLeft, HandleState.left]
  | returned outcome => simp [handleStep, handleLeft, HandleState.left]

namespace Program

open Lifecycle (Pc)

structure State (sea : Seastar) (N : Nat) (S Id : Type) where
  life : Lifecycle.State sea N
  serving : Serving S Id
  /-- The requests that were taken and not answered. -/
  inside : Finset Id
  answered : Finset Id

inductive Act (N : Nat) (Id : Type) where
  | life (a : Lifecycle.Act N)
  | take (i : Id)
  | run (i : Id)
  | answer (i : Id)

/-- The steps of `Lifecycle` that are those of a request here. -/
def ofRequest {N : Nat} : Lifecycle.Act N → Bool
  | .accept _ | .answer _ => true
  | _ => false

/-- The steps that nobody outside takes. -/
def Act.internal {N : Nat} {Id : Type} : Act N Id → Bool
  | .life a => a.internal
  | .take _ => false
  | .run _ | .answer _ => true

def Act.isTake {N : Nat} {Id : Type} : Act N Id → Bool
  | .take _ => true
  | _ => false

/-- What `Lifecycle` sees of a step. -/
def Act.life? {N : Nat} {Id : Type} (shardOf : Id → Fin N) : Act N Id → Option (Lifecycle.Act N)
  | .life a => some a
  | .take i => some (.accept (shardOf i))
  | .run _ => none
  | .answer i => some (.answer (shardOf i))

/-- What `Serving` sees of it. -/
def Act.run? {N : Nat} {Id : Type} : Act N Id → Option Id
  | .run i => some i
  | _ => none

section
variable {sea : Seastar} {N : Nat} {S Id : Type} {shardOf : Id → Fin N} {s : State sea N S Id}
  {i : Id}

def begin (sea : Seastar) (N : Nat) (w : World S) : State sea N S Id :=
  ⟨Lifecycle.initial sea N, Serving.begin w, ∅, ∅⟩

/-- `clients.local()` is there. -/
def State.hasClients (s : State sea N S Id) : Bool :=
  decide (.started .clients ∈ s.life.process.events)

/-- The coroutine of request `i` is in the called function, where it reads `clients.local()`. -/
def State.calls (s : State sea N S Id) (i : Id) : Bool :=
  match s.serving.stage i with
  | .running (.calling _) => true
  | _ => false

/-- The coroutine of request `i` can go on. -/
def State.CanRun (s : State sea N S Id) (i : Id) : Prop :=
  i ∈ s.inside ∧ s.life.pc ≠ .ended ∧ (s.calls i = true → s.hasClients = true)

instance [DecidableEq Id] (s : State sea N S Id) (i : Id) : Decidable (s.CanRun i) :=
  inferInstanceAs (Decidable (_ ∧ _))

/-- The shards count the requests that are on their way, and nobody else's coroutine runs. -/
structure Counted (shardOf : Id → Fin N) (s : State sea N S Id) : Prop where
  flight : ∀ k, s.life.inFlight k = (s.inside.filter fun i => shardOf i = k).card
  received : ∀ i, i ∉ s.inside → i ∉ s.answered → s.serving.stage i = .running .received
  finished : ∀ i, i ∈ s.answered → (s.serving.stage i).isFinished = true

theorem counted_begin (hdrains : sea.Drains) (w : World S) :
    Counted shardOf (begin sea N w : State sea N S Id) :=
  ⟨fun _ => hdrains.atStart.2, fun _ _ _ => rfl, fun i h => absurd h (Finset.notMem_empty i)⟩

/-- The shard of a request that is on its way has one in progress. -/
theorem Counted.busy (h : Counted shardOf s) (hi : i ∈ s.inside) :
    s.life.inFlight (shardOf i) ≠ 0 := by
  rw [h.flight, Finset.card_ne_zero]
  exact ⟨i, by simp [hi]⟩

end

section
variable {sea : Seastar} {N : Nat} {S Id : Type} [DecidableEq Id] (lib : Bsoncxx)
  (clients : Clients S Id) (requests : Id → Request) (replies : Id → Reply)
  (env : MainFailures N) (shardOf : Id → Fin N)

def step (s : State sea N S Id) : Act N Id → Option (State sea N S Id)
  | .life a =>
    if ofRequest a then none
    else (Lifecycle.step env s.life a).map fun life => { s with life := life }
  | .take i =>
    if i ∈ s.inside ∨ i ∈ s.answered then none
    else (Lifecycle.step env s.life (.accept (shardOf i))).map fun life =>
      { s with life := life, inside := insert i s.inside }
  | .run i =>
    if s.CanRun i then
      (Serving.step lib clients requests replies s.serving i).map fun serving =>
        { s with serving := serving }
    else none
  | .answer i =>
    if i ∈ s.inside ∧ (s.serving.stage i).isFinished = true then
      (Lifecycle.step env s.life (.answer (shardOf i))).map fun life =>
        { s with life := life, inside := s.inside.erase i, answered := insert i s.answered }
    else none

end

section
variable {sea : Seastar} {N : Nat} {S Id : Type} [DecidableEq Id] {lib : Bsoncxx}
  {clients : Clients S Id} {requests : Id → Request} {replies : Id → Reply}
  {env : MainFailures N} {shardOf : Id → Fin N} {s s' : State sea N S Id} {i : Id}

/-! ## What a step can do -/

theorem life_some {a : Lifecycle.Act N}
    (h : step lib clients requests replies env shardOf s (.life a) = some s') :
    ofRequest a = false ∧ Lifecycle.step env s.life a = some s'.life ∧
      s' = { s with life := s'.life } := by
  simp only [step] at h
  split_ifs at h with ha
  obtain ⟨life, hlife, rfl⟩ := Option.map_eq_some_iff.1 h
  exact ⟨by simpa using ha, hlife, rfl⟩

theorem take_some (h : step lib clients requests replies env shardOf s (.take i) = some s') :
    i ∉ s.inside ∧ i ∉ s.answered ∧
      Lifecycle.step env s.life (.accept (shardOf i)) = some s'.life ∧
      s' = { s with life := s'.life, inside := insert i s.inside } := by
  simp only [step] at h
  split_ifs at h with hi
  obtain ⟨life, hlife, rfl⟩ := Option.map_eq_some_iff.1 h
  obtain ⟨hinside, hanswered⟩ := not_or.1 hi
  exact ⟨hinside, hanswered, hlife, rfl⟩

theorem run_some (h : step lib clients requests replies env shardOf s (.run i) = some s') :
    i ∈ s.inside ∧ Serving.step lib clients requests replies s.serving i = some s'.serving ∧
      s' = { s with serving := s'.serving } := by
  simp only [step] at h
  split_ifs at h with hi
  obtain ⟨serving, hserving, rfl⟩ := Option.map_eq_some_iff.1 h
  exact ⟨hi.1, hserving, rfl⟩

theorem answer_some (h : step lib clients requests replies env shardOf s (.answer i) = some s') :
    i ∈ s.inside ∧ (s.serving.stage i).isFinished = true ∧
      Lifecycle.step env s.life (.answer (shardOf i)) = some s'.life ∧
      s' = { s with
        life := s'.life
        inside := s.inside.erase i
        answered := insert i s.answered } := by
  simp only [step] at h
  split_ifs at h with hi
  obtain ⟨life, hlife, rfl⟩ := Option.map_eq_some_iff.1 h
  exact ⟨hi.1, hi.2, hlife, rfl⟩

/-- `main_fut` and its shards run as they do among requests that are only counted. -/
theorem life_of_exec {acts : List (Act N Id)}
    (hex : exec (step lib clients requests replies env shardOf) s acts = some s') :
    exec (Lifecycle.step env) s.life (acts.filterMap (Act.life? shardOf)) = some s'.life := by
  refine exec_filterMap (f := State.life) (fun s a s' hstep => ?_) hex
  cases a with
  | life a => exact (life_some hstep).2.1
  | take i => exact (take_some hstep).2.2.1
  | run i =>
    rw [(run_some hstep).2.2]
    rfl
  | answer i => exact (answer_some hstep).2.2.1

/-- The requests are handled as they are on a server that is always there. -/
theorem serving_of_exec {acts : List (Act N Id)}
    (hex : exec (step lib clients requests replies env shardOf) s acts = some s') :
    exec (Serving.step lib clients requests replies) s.serving (acts.filterMap Act.run?) =
      some s'.serving := by
  refine exec_filterMap (f := State.serving) (fun s a s' hstep => ?_) hex
  cases a with
  | life a =>
    rw [(life_some hstep).2.2]
    rfl
  | take i =>
    rw [(take_some hstep).2.2.2]
    rfl
  | run i => exact (run_some hstep).2.1
  | answer i =>
    rw [(answer_some hstep).2.2.2]
    rfl

/-! ## Requests on their way -/

theorem inFlight_life (hdrains : sea.Drains) {a : Lifecycle.Act N} {l l' : Lifecycle.State sea N}
    (ha : ofRequest a = false) (h : Lifecycle.step env l a = some l') :
    l'.inFlight = l.inFlight := by
  cases a with
  | main =>
    obtain ⟨-, pc, -, hl', -⟩ := Lifecycle.main_cases h
    rw [hl']
    rfl
  | shard k => exact Lifecycle.inFlight_shard hdrains h
  | resume =>
    rw [(Lifecycle.resume_some h).2]
    rfl
  | signal sig =>
    rw [(Lifecycle.signal_some h).2]
    rfl
  | accept k | answer k => cases ha

theorem Counted.step (hdrains : sea.Drains) (h : Counted shardOf s) {a : Act N Id}
    (hstep : step lib clients requests replies env shardOf s a = some s') : Counted shardOf s' := by
  cases a with
  | life a =>
    obtain ⟨ha, hlife, hs'⟩ := life_some hstep
    have hflight := inFlight_life hdrains ha hlife
    rw [hs']
    exact ⟨fun k => by rw [hflight]; exact h.flight k, h.received, h.finished⟩
  | take i =>
    obtain ⟨hinside, hanswered, hlife, hs'⟩ := take_some hstep
    obtain ⟨-, server, htake, hl'⟩ := Lifecycle.accept_some hlife
    have hhandling : sea.handling server = s.life.inFlight (shardOf i) + 1 :=
      (hdrains.take _ _ htake).2
    rw [hs']
    refine ⟨fun k => ?_, fun j hj => h.received j fun hmem => hj (Finset.mem_insert_of_mem hmem),
      h.finished⟩
    rw [hl', Lifecycle.setServer_inFlight, Finset.filter_insert]
    by_cases hk : shardOf i = k
    · subst hk
      simp [hinside, hhandling, h.flight]
    · simp [hk, Ne.symm hk, h.flight]
  | run i =>
    obtain ⟨hinside, hserving, hs'⟩ := run_some hstep
    obtain ⟨l, hl, hstage⟩ := Tasks.step_some hserving
    rw [hs']
    refine ⟨h.flight, fun j hj hj' => ?_, fun j hj => ?_⟩
    · have hji : j ≠ i := fun heq => hj (heq ▸ hinside)
      simpa [hstage, hji] using h.received j hj hj'
    · have hfinished := h.finished j hj
      have hji : j ≠ i := by
        rintro rfl
        rw [hl] at hfinished
        cases hfinished
      simpa [hstage, hji] using hfinished
  | answer i =>
    obtain ⟨hinside, hover, hlife, hs'⟩ := answer_some hstep
    obtain ⟨-, server, hreply, hl'⟩ := Lifecycle.answer_some hlife
    have hhandling : s.life.inFlight (shardOf i) = sea.handling server + 1 :=
      hdrains.reply _ _ hreply
    rw [hs']
    refine ⟨fun k => ?_, fun j hj hj' => ?_, fun j hj => ?_⟩
    · rw [hl', Lifecycle.setServer_inFlight, Finset.filter_erase]
      by_cases hk : shardOf i = k
      · subst hk
        rw [h.flight] at hhandling
        simp [hinside, hhandling, Finset.card_erase_of_mem]
      · simp [hk, Ne.symm hk, h.flight]
    · obtain ⟨hji, hj'⟩ : j ≠ i ∧ j ∉ s.answered := by simpa using hj'
      exact h.received j (fun hmem => hj (Finset.mem_erase.2 ⟨hji, hmem⟩)) hj'
    · rcases Finset.mem_insert.1 hj with rfl | hj
      · exact hover
      · exact h.finished j hj

theorem counted_of_exec (hdrains : sea.Drains) {w : World S} {acts : List (Act N Id)}
    (hex : exec (Program.step lib clients requests replies env shardOf) (begin sea N w) acts =
      some s) : Counted shardOf s :=
  exec_invariant (fun _ _ _ h hstep => h.step hdrains hstep) (counted_begin hdrains w) hex

/-- Where requests come, `Init` is done, and its clients are there as far as it got them. -/
theorem init_done_of_listening {acts : List (Act N Id)} {w : World S}
    (hex : exec (step lib clients requests replies env shardOf) (begin sea N w) acts = some s)
    {k : Fin N} (hlistening : .listening k ∈ s.life.process.events) :
    Lifecycle.InitDone env s.life.process := by
  have hbegun := Lifecycle.begun_of_exec (life_of_exec hex)
  have hlate : ¬ (s.life.pc = .begin ∨ s.life.pc = .init) := by
    intro hearly
    rw [hbegun.fresh hearly] at hlistening
    cases hlistening
  exact hbegun.database (fun hpc => hlate (Or.inl hpc)) fun hpc => hlate (Or.inr hpc)

/-- **No request is lost when the server stops.** Where `clients.start()` has not failed, at every
moment of every run of the program, what a request on its way needs is up, the client of its shard
unless its construction threw; the database server is as after `handle` of some requests that were
taken, one after the other, and each request that was answered is one of them, and got the answer
of its place. Once the server has been stopped, no request is on its way: those requests are
exactly the answered ones. -/
theorem requests_drained (hdrains : sea.Drains) (hclients : clients.KeepsLookups)
    (hstart : ∀ k, env.init.clientsStart k = none) {w : World S} {acts : List (Act N Id)}
    (hex : exec (step lib clients requests replies env shardOf) (begin sea N w) acts = some s) :
    (∀ i ∈ s.inside, .listening (shardOf i) ∈ s.life.process.events ∧
      .started .clients ∈ s.life.process.events ∧
      (env.init.constructClient (shardOf i) = none →
        .constructed (shardOf i) ∈ s.life.process.events) ∧
      .started .handlers ∈ s.life.process.events ∧ .started .server ∈ s.life.process.events ∧
      ∀ service, .stopped service ∉ s.life.process.events) ∧
    (∃ order : List Id, order.Nodup ∧
      s.serving.shared = after (handleAlone lib clients requests replies) w order ∧
      (∀ i ∈ order, i ∈ s.inside ∨ i ∈ s.answered) ∧
      ∀ i ∈ s.answered, i ∈ order ∧ s.serving.stage i = .finished
        (handleAlone lib clients requests replies i
          (after (handleAlone lib clients requests replies) w (upTo order i))).1) ∧
    (.stopped .server ∈ s.life.process.events → s.inside = ∅) := by
  have hcounted := counted_of_exec hdrains hex
  have hsafe := Lifecycle.safe_of_exec hdrains (life_of_exec hex)
  have hserving := serving_of_exec hex
  have hserial := serial_of_exec (handle_oneAccess lib clients requests replies hclients) hserving
  refine ⟨fun i hi => ?_, ⟨s.serving.order, hserial.nodup, hserial.shared, fun i hi => ?_,
    fun i hi => ?_⟩, fun hstopped => ?_⟩
  · obtain ⟨hlistening, hup⟩ := hsafe.served (Or.inr (hcounted.busy hi))
    have hdone := init_done_of_listening hex hlistening
    exact ⟨hlistening, hdone.events _ (started_mem_initEvents.2 ⟨rfl, hstart⟩),
      fun hconstruct => hdone.events _ (constructed_mem_initEvents.2 ⟨hstart, hconstruct⟩), hup⟩
  · by_contra htaken
    obtain ⟨hinside, hanswered⟩ := not_or.1 htaken
    exact notMem_order_of_received hclients hserving (hcounted.received i hinside hanswered) hi
  · have hfinished := hcounted.finished i hi
    cases hstage : s.serving.stage i with
    | running l =>
      rw [hstage] at hfinished
      cases hfinished
    | finished reply =>
      obtain ⟨hmem, rfl⟩ := answered hclients hserving hstage
      exact ⟨hmem, rfl⟩
  · rw [Finset.eq_empty_iff_forall_notMem]
    intro i hi
    exact (hsafe.stopped _ hstopped).2 (shardOf i) (Or.inr (hcounted.busy hi))

/-! ## Where nothing goes on by itself -/

/-- What there is left to do: for `main_fut` and the shards, and for the coroutines. -/
def State.left (s : State sea N S Id) : Nat :=
  s.life.left + ∑ i ∈ s.inside, handleLeft (s.serving.stage i)

theorem left_step (hwakes : sea.WakesWaiters) (hdrains : sea.Drains)
    (htracks : Lifecycle.Tracks s.life) (h : Counted shardOf s) {a : Act N Id}
    (hstep : step lib clients requests replies env shardOf s a = some s') :
    s'.left + a.internal.toNat ≤ s.left + 5 * a.isTake.toNat := by
  cases a with
  | life a =>
    obtain ⟨ha, hlife, hs'⟩ := life_some hstep
    have hleft := Lifecycle.left_step hwakes hdrains htracks hlife
    have haccept : a.isAccept = false := by cases a <;> first | rfl | cases ha
    rw [haccept, Bool.toNat_false] at hleft
    rw [hs']
    simp only [State.left, Act.internal, Act.isTake, Bool.toNat_false]
    omega
  | take i =>
    obtain ⟨hinside, hanswered, hlife, hs'⟩ := take_some hstep
    have hleft := Lifecycle.left_step hwakes hdrains htracks hlife
    have hstage := h.received i hinside hanswered
    rw [hs']
    simp only [State.left, Act.internal, Act.isTake, Finset.sum_insert hinside, hstage, handleLeft,
      HandleState.left, Lifecycle.Act.internal, Lifecycle.Act.isAccept, Bool.toNat_true,
      Bool.toNat_false] at hleft ⊢
    omega
  | run i =>
    obtain ⟨hinside, hserving, hs'⟩ := run_some hstep
    obtain ⟨l, hl, hstage⟩ := Tasks.step_some hserving
    have hless := handleStep_left lib (clients.driver i) (requests i) (replies i) l s.serving.shared
    have hothers : ∑ j ∈ s.inside.erase i, handleLeft (s'.serving.stage j) =
        ∑ j ∈ s.inside.erase i, handleLeft (s.serving.stage j) :=
      Finset.sum_congr rfl fun j hj => by simp [hstage, Finset.ne_of_mem_erase hj]
    have hsum := Finset.add_sum_erase s.inside (fun j => handleLeft (s.serving.stage j)) hinside
    have hsum' := Finset.add_sum_erase s.inside (fun j => handleLeft (s'.serving.stage j)) hinside
    have hi : handleLeft (s'.serving.stage i) + 1 ≤ handleLeft (s.serving.stage i) := by
      rw [hstage, Function.update_self, hl]
      exact hless
    have hlife : s'.life = s.life := by rw [hs']
    have hsame : s'.inside = s.inside := by rw [hs']
    simp only [State.left, Act.internal, Act.isTake, Bool.toNat_true, Bool.toNat_false, hlife,
      hsame]
    omega
  | answer i =>
    obtain ⟨hinside, hover, hlife, hs'⟩ := answer_some hstep
    have hleft := Lifecycle.left_step hwakes hdrains htracks hlife
    have hsum := Finset.add_sum_erase s.inside (fun j => handleLeft (s.serving.stage j)) hinside
    rw [hs']
    simp only [State.left, Act.internal, Act.isTake, Lifecycle.Act.internal,
      Lifecycle.Act.isAccept, Bool.toNat_true, Bool.toNat_false] at hleft ⊢
    omega

/-- A request that is on its way goes on by itself, as long as the process runs. -/
theorem request_enabled (lib : Bsoncxx) (clients : Clients S Id) (requests : Id → Request)
    (replies : Id → Reply) (env : MainFailures N) (hprogresses : sea.Progresses)
    (h : Counted shardOf s) (hhas : s.hasClients = true) (hpc : s.life.pc ≠ .ended)
    (hi : i ∈ s.inside) :
    ∃ a : Act N Id, a.internal = true ∧
      (step lib clients requests replies env shardOf s a).isSome = true := by
  cases hover : (s.serving.stage i).isFinished with
  | false =>
    refine ⟨.run i, rfl, ?_⟩
    have hserving : (Serving.step lib clients requests replies s.serving i).isSome = true :=
      Tasks.isSome_step hover
    have hcan : s.CanRun i := ⟨hi, hpc, fun _ => hhas⟩
    simpa [step, hcan] using hserving
  | true =>
    refine ⟨.answer i, rfl, ?_⟩
    have hreply := hprogresses.reply _ (h.busy hi)
    simpa [step, hi, hover, Lifecycle.step, hpc] using hreply

/-- Where the program is at rest, `main_fut` and its shards are. -/
theorem life_rests (hdrains : sea.Drains) (h : Counted shardOf s)
    (hrest : ∀ a : Act N Id, a.internal = true →
      step lib clients requests replies env shardOf s a = none)
    (hinside : s.life.pc ≠ .ended → s.inside = ∅) (a : Lifecycle.Act N) (ha : a.internal = true) :
    Lifecycle.step env s.life a = none := by
  cases hrequest : ofRequest a with
  | false =>
    have hnone := hrest (.life a) ha
    simpa [step, hrequest] using hnone
  | true =>
    cases a with
    | answer k =>
      rw [Option.eq_none_iff_forall_ne_some]
      intro life hlife
      obtain ⟨hpc, server, hreply, -⟩ := Lifecycle.answer_some hlife
      have hflight : s.life.inFlight k = 0 := by simpa [hinside hpc] using h.flight k
      have hhandling : s.life.inFlight k = sea.handling server + 1 := hdrains.reply _ _ hreply
      omega
    | accept k => cases ha
    | main | shard k | resume | signal sig => cases hrequest

/-- **The program comes to rest.** The steps that nobody outside takes are bounded by the number of
shards and of requests taken. Where none is left, and no request on the open connections of a
server that is told to stop: every request that was taken has been answered, and `main_fut` waits
and no signal has arrived since it began; or `main_fut` is over, and every request that was taken
has been answered as well, unless `listen` has failed on some shard, or `wait()` has thrown. -/
theorem program_rests (hsignals : sea.HandlesSignals) (hwakes : sea.WakesWaiters)
    (hdrains : sea.Drains) (hlistens : sea.KeepsListening) (hprogresses : sea.Progresses)
    (hstart : ∀ k, env.init.clientsStart k = none) {w : World S} {acts : List (Act N Id)}
    (hex : exec (step lib clients requests replies env shardOf) (begin sea N w) acts = some s) :
    acts.countP Act.internal ≤ 3 * N + 11 + 5 * acts.countP Act.isTake ∧
    ((∀ a : Act N Id, a.internal = true →
        step lib clients requests replies env shardOf s a = none) →
      (∀ k, sea.stopping (s.life.servers k) = true → sea.take (s.life.servers k) = none) →
      (s.life.pc = .waiting ∧ s.inside = ∅ ∧
        ¬ Lifecycle.Signalled sea env (acts.filterMap (Act.life? shardOf))) ∨
      (s.life.pc = .ended ∧
        (s.inside = ∅ ∨ (∃ k, env.listen k ≠ none) ∨ env.wait ≠ none))) := by
  have hlife := life_of_exec hex
  have hcounted := counted_of_exec hdrains hex
  refine ⟨?_, fun hrest hnone => ?_⟩
  · have hbudget := exec_budget_mul (I := fun s => Lifecycle.Tracks s.life ∧ Counted shardOf s)
      State.left 5 Act.internal Act.isTake
      (fun s a s' h hstep => ⟨?_, h.2.step hdrains hstep⟩)
      (fun s a s' h hstep => left_step hwakes hdrains h.1 h.2 hstep)
      ⟨Lifecycle.tracks_initial hsignals hwakes, counted_begin hdrains w⟩ hex
    · have hbegin : (begin sea N w : State sea N S Id).left = 3 * N + 11 := by
        simp [State.left, begin, Lifecycle.left_initial hwakes hdrains]
      omega
    · have hone : exec (step lib clients requests replies env shardOf) s [a] = some s' := by
        simp [hstep]
      exact exec_invariant (fun _ _ _ h hstep => h.step hsignals hwakes hstep) h.1
        (life_of_exec hone)
  · have hinside : s.life.pc ≠ .ended → s.inside = ∅ := by
      intro hpc
      rw [Finset.eq_empty_iff_forall_notMem]
      intro i hi
      have hlistening := ((Lifecycle.safe_of_exec hdrains hlife).served
        (Or.inr (hcounted.busy hi))).1
      have hhas : s.hasClients = true := decide_eq_true
        ((init_done_of_listening hex hlistening).events _ (started_mem_initEvents.2 ⟨rfl, hstart⟩))
      obtain ⟨a, ha, hstep⟩ :=
        request_enabled lib clients requests replies env hprogresses hcounted hhas hpc hi
      rw [hrest a ha] at hstep
      cases hstep
    have hstuck := life_rests hdrains hcounted hrest hinside
    rcases Lifecycle.waits_of_stuck hprogresses (Lifecycle.tracks_of_exec hsignals hwakes hlife)
      (Lifecycle.stopping_of_exec hlistens hlife) hstuck hnone with hpc | ⟨hpc, hcaught⟩
    · refine Or.inr ⟨hpc, (Lifecycle.idle_of_ended hdrains hlife hpc).imp_left fun hidle => ?_⟩
      rw [Finset.eq_empty_iff_forall_notMem]
      exact fun i hi => hidle (shardOf i) (Or.inr (hcounted.busy hi))
    · refine Or.inl ⟨hpc, hinside (by rw [hpc]; nofun), ?_⟩
      rw [← Lifecycle.caught_iff hsignals hwakes hlife, hcaught]
      exact Bool.false_ne_true

end

/-- On the second shard the client cannot be constructed. -/
def oneConstructed : MainFailures 2 :=
  { noFailures 2 with
    init := { (noFailures 2).init with
      constructClient := fun i =>
        if i = Fin.last 1 then some (.driver (text "invalid URI")) else none } }

def shardOfTwo (i : Bool) : Fin 2 := if i then (Fin.last 0).castSucc else Fin.last 1

/-- Two shards, each of which has taken a request when the signal comes. -/
def twoOnTheirWay : List (Act 2 Bool) :=
  let first := Act.life (.shard (shardOfTwo true))
  let second := Act.life (.shard (shardOfTwo false))
  List.replicate 6 (.life .main) ++ [first, .take true, .run true, second, .take false,
    .life .main, .run false, .life (.signal .SIGTERM), .life .resume, .life .main, first, .run true,
    .run false, second, .run false, .run true, .run true, .answer false, .answer true, second, first,
    .life .main, .life .main]

def stopsAmongTwo : Option (State .plain 2 Unit Bool) :=
  exec (step (.plain bothNamesText bothNames) oneWithoutClient (createAndDelete bothNamesText)
    (fun _ => newReply) oneConstructed shardOfTwo) (begin .plain 2 ⟨(), []⟩) twoOnTheirWay

theorem requests_drained_two : ∃ s, stopsAmongTwo = some s ∧ s.inside = ∅ := by
  obtain ⟨s, hex, hstopped⟩ := Option.map_eq_some_iff.1
    (show stopsAmongTwo.map (fun s => decide (.stopped .server ∈ s.life.process.events)) =
      some true by decide +kernel)
  have hdrained := requests_drained Seastar.plain_drains oneWithoutClient_keepsLookups
    (fun _ => rfl) (show exec _ _ _ = some s from hex)
  exact ⟨s, hex, hdrained.2.2 (of_decide_eq_true hstopped)⟩

theorem program_rests_two : ∃ s, stopsAmongTwo = some s ∧
    twoOnTheirWay.countP Act.internal ≤ 3 * 2 + 11 + 5 * twoOnTheirWay.countP Act.isTake := by
  obtain ⟨s, hex⟩ := Option.isSome_iff_exists.1
    (show stopsAmongTwo.isSome = true by decide +kernel)
  exact ⟨s, hex, (program_rests Seastar.plain_handlesSignals Seastar.plain_wakesWaiters
    Seastar.plain_drains Seastar.plain_keepsListening Seastar.plain_progresses (fun _ => rfl)
    (show exec _ _ _ = some s from hex)).1⟩

end Program
end SeastarStarter
