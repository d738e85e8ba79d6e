import SeastarStarter.Lifecycle

/-!
# The end of `main_fut` (main.cc:538-547)

Two results about all interleavings of `main_fut`, the shards, the requests and the signals. Each
step that is not a signal or a new request draws on a budget (`State.left`), so `main_fut` gets
stuck or comes to its end; and it gets stuck only waiting for a signal (`main_fut_ends`). What has
happened when it is over is what `mainFut`, without interleavings, says (`main_fut_refines`).
-/

namespace SeastarStarter
namespace Lifecycle

open Lts

variable {sea : Seastar} {N : Nat} {env : MainFailures N} {s s' : State sea N}

/-- The steps that nobody outside takes. -/
def Act.internal : Act N → Bool
  | .signal _ | .accept _ => false
  | _ => true

def Act.isAccept : Act N → Bool
  | .accept _ => true
  | _ => false

/-! ## What there is left to do -/

/-- The steps of `main_fut` and of the shards from a point on. -/
def Pc.left : Pc N → Nat
  | .begin => 3 * N + 10
  | .init => 3 * N + 9
  | .mutexes => 3 * N + 8
  | .handlers => 3 * N + 7
  | .server => 3 * N + 6
  | .routes => 3 * N + 5
  | .listen left => left.card + 2 * N + 4
  | .waiting => 2 * N + 3
  | .serverStop uncalled left => uncalled.card + left.card + 2
  | .handlersStop => 1
  | .ended => 0

def waitLeft : Option (Nat × Wait) → Nat
  | none | some (_, .queued) | some (_, .woken) => 1
  | _ => 0

def State.left (s : State sea N) : Nat := s.pc.left + ∑ i, s.inFlight i + waitLeft s.wait

theorem left_initial (hwakes : sea.WakesWaiters) (hdrains : sea.Drains) :
    (initial sea N).left = 3 * N + 11 := by
  have hwait : (initial sea N).wait = none := hwakes.atStart 0
  have hflight : (initial sea N).inFlight = fun _ => 0 := funext fun _ => hdrains.atStart.2
  rw [State.left, hwait, hflight]
  simp [initial, Pc.left, waitLeft]

theorem left_next (hready : s.ready = true) : s.pc.next.left + 1 ≤ s.pc.left := by
  cases hpc : s.pc with
  | ended => simp [State.ready, hpc] at hready
  | listen left =>
    simp only [Pc.next, Pc.left]
    omega
  | serverStop uncalled left =>
    simp only [Pc.next, Pc.left]
    omega
  | _ =>
    simp only [Pc.next, Pc.left, Finset.card_univ, Fintype.card_fin]
    omega

theorem left_of_ready (hready : s.ready = true) : 1 ≤ s.pc.left := by
  have h := left_next hready
  omega

/-- What happens to `stop_signal` costs no more than there was. -/
theorem waitLeft_entered (hwakes : sea.WakesWaiters) {signals signals' : StopSignal.State sea}
    {pc : Pc N} (h : Entered signals pc signals') :
    waitLeft (sea.future signals'.conditions 0) ≤ waitLeft (sea.future signals.conditions 0) := by
  cases pc with
  | init =>
    have hconstruct : StopSignal.step signals (.construct 0) = some signals' := h
    rw [(StopSignal.construct_some hconstruct).2]
  | waiting =>
    have hwait : StopSignal.step signals (.wait 0 0) = some signals' := h
    obtain ⟨hnone, -, hs⟩ := StopSignal.wait_some hwait
    rw [hs, hnone]
    dsimp only
    rw [hwakes.wait _ _ _ _ hnone]
    split_ifs <;> simp [waitLeft]
  | ended =>
    have hdestroy : StopSignal.step signals (.destroy 0) = some signals' := h
    rw [(StopSignal.destroy_some hdestroy).2]
    dsimp only
    by_cases hqueued : sea.future signals.conditions 0 = some (0, .queued)
    · rw [hwakes.destroy _ _ _ hqueued]
      exact Nat.zero_le _
    · rw [hwakes.destroy_others _ _ _ hqueued]
  | _ =>
    obtain rfl : signals' = signals := h
    exact Nat.le_refl _

theorem left_main (hwakes : sea.WakesWaiters) (hstep : step env s .main = some s') :
    s'.left + 1 ≤ s.left := by
  obtain ⟨hready, pc, hentered, hs', hpc⟩ := main_cases hstep
  have hspc : s'.pc = pc := by rw [hs']
  have hflight : s'.inFlight = s.inFlight := by
    rw [hs']
    rfl
  have hwait : waitLeft s'.wait ≤ waitLeft s.wait := waitLeft_entered hwakes hentered
  have hleft : s'.pc.left + 1 ≤ s.pc.left := by
    rw [hspc]
    rcases hpc with ⟨-, rfl⟩ | ⟨-, rfl⟩
    · exact left_next hready
    · simpa [Pc.left] using left_of_ready hready
  simp only [State.left, hflight]
  omega

/-- The steps of the shards have their requests as they are. -/
theorem inFlight_shard (hdrains : sea.Drains) {i : Fin N}
    (hstep : step env s (.shard i) = some s') : s'.inFlight = s.inFlight := by
  have hkept : ∀ {server}, sea.handling server = sea.handling (s.servers i) →
      Function.update s.inFlight i (sea.handling server) = s.inFlight := by
    intro server hserver
    rw [hserver]
    exact Function.update_eq_self i _
  rcases shard_cases hstep with ⟨left, -, -, -, rfl⟩ | ⟨left, -, -, -, rfl⟩ |
    ⟨uncalled, left, -, -, rfl⟩ | ⟨uncalled, left, -, -, -, -, rfl⟩
  · exact setServer_inFlight.trans (hkept (hdrains.listen _))
  · rfl
  · exact setServer_inFlight.trans (hkept (hdrains.stop _).2)
  · rfl

theorem left_shard (hdrains : sea.Drains) {i : Fin N} (hstep : step env s (.shard i) = some s') :
    s'.left + 1 ≤ s.left := by
  have hflight := inFlight_shard hdrains hstep
  have hwait : s'.wait = s.wait := by
    unfold State.wait
    rw [(shard_some hstep).1]
  have hpc : s'.pc.left + 1 = s.pc.left := by
    rcases shard_cases hstep with ⟨left, hpc, hi, -, rfl⟩ | ⟨left, hpc, hi, -, rfl⟩ |
      ⟨uncalled, left, hpc, hi, rfl⟩ | ⟨uncalled, left, hpc, -, hi, -, rfl⟩
    all_goals
      have hcard := Finset.card_erase_add_one hi
      simp only [hpc, Pc.left]
      omega
  simp only [State.left, hflight, hwait]
  omega

/-- What a shard's server does with its requests. -/
theorem left_setServer (s : State sea N) (i : Fin N) (server : sea.Server) :
    (s.setServer i server).left + s.inFlight i = s.left + sea.handling server := by
  have hsum := sum_of_ne (f := s.inFlight) (i := i)
    (g := Function.update s.inFlight i (sea.handling server)) fun j hj => by simp [hj]
  have hwait : (s.setServer i server).wait = s.wait := rfl
  simp only [State.left, setServer_pc, setServer_inFlight, hwait, Function.update_self] at hsum ⊢
  omega

/-- **Each step that nobody outside takes draws on what is left, and a new request adds to it.** -/
theorem left_step (hwakes : sea.WakesWaiters) (hdrains : sea.Drains) (h : Tracks s) {a : Act N}
    (hstep : step env s a = some s') :
    s'.left + a.internal.toNat ≤ s.left + a.isAccept.toNat := by
  cases a with
  | main => exact left_main hwakes hstep
  | shard i => exact left_shard hdrains hstep
  | resume =>
    obtain ⟨hresume, hs'⟩ := resume_some hstep
    obtain ⟨o, hwoken, -, hrerun⟩ := StopSignal.resume_some hresume
    have hawaits := h.awaits
    unfold State.wait at hawaits
    rw [hwoken] at hawaits
    obtain ⟨hpc, rfl⟩ := Pc.awaits_open (by decide) hawaits
    have halive := h.alive (by rw [hpc]; rfl)
    obtain ⟨acts, -, htells, -⟩ := h.history
    have hcaught := (htells.woken 0 0 hwoken).1
    have hresolved : s'.wait = some (0, .resolved) := by
      unfold State.wait
      rw [hrerun, StopSignal.rerun, if_pos halive]
      dsimp only
      rw [hwakes.rerun _ _ _ _ hwoken, hcaught]
      rfl
    have hflight : s'.inFlight = s.inFlight := by
      rw [hs']
      rfl
    have hspc : s'.pc = s.pc := by rw [hs']
    have hwait : s.wait = some (0, .woken) := hwoken
    simp [State.left, hflight, hspc, hresolved, hwait, waitLeft, Act.internal, Act.isAccept]
  | signal sig =>
    obtain ⟨hdeliver, hs'⟩ := signal_some hstep
    have hflight : s'.inFlight = s.inFlight := by
      rw [hs']
      rfl
    have hspc : s'.pc = s.pc := by rw [hs']
    have hwait : waitLeft s'.wait = waitLeft s.wait := by
      unfold State.wait
      rcases (StopSignal.deliver_future hwakes hdeliver).2 0 with heq | ⟨o, hqueued, hwoken⟩
      · rw [heq]
      · rw [hqueued, hwoken]
        rfl
    simp [State.left, hflight, hspc, hwait, Act.internal, Act.isAccept]
  | accept i =>
    obtain ⟨-, server, htake, rfl⟩ := accept_some hstep
    obtain ⟨-, hhandling⟩ := hdrains.take _ _ htake
    have hleft := left_setServer s i server
    simp only [State.inFlight, Act.internal, Act.isAccept, Bool.toNat_true, Bool.toNat_false]
      at hleft ⊢
    omega
  | answer i =>
    obtain ⟨-, server, hreply, rfl⟩ := answer_some hstep
    have hhandling := hdrains.reply _ _ hreply
    have hleft := left_setServer s i server
    simp only [State.inFlight, Act.internal, Act.isAccept, Bool.toNat_true, Bool.toNat_false]
      at hleft ⊢
    omega

/-! ## Where nothing goes on by itself -/

/-- The servers whose `stop` has been called are at it. -/
def Stopping (s : State sea N) : Prop :=
  ∀ uncalled left, s.pc = .serverStop uncalled left → ∀ i, i ∉ uncalled →
    sea.stopping (s.servers i) = true

theorem Stopping.frame (h : Stopping s) (hpc : s'.pc = s.pc)
    (hservers : ∀ i, sea.stopping (s'.servers i) = sea.stopping (s.servers i)) : Stopping s' :=
  fun uncalled left hp i hi => (hservers i).trans (h uncalled left (hpc ▸ hp) i hi)

theorem Stopping.step (hlistens : sea.KeepsListening) (h : Stopping s) {a : Act N}
    (hstep : step env s a = some s') : Stopping s' := by
  cases a with
  | main =>
    obtain ⟨-, pc, -, hs', hpc⟩ := main_cases hstep
    intro uncalled left hp i hi
    have hspc : s'.pc = pc := by rw [hs']
    rw [hspc] at hp
    rcases hpc with ⟨-, rfl⟩ | ⟨-, rfl⟩
    · -- `server->stop()` begins with all shards still to be called
      cases hpc : s.pc <;> simp [hpc, Pc.next] at hp
      exact absurd (hp.1 ▸ Finset.mem_univ i) hi
    · cases hp
  | shard i =>
    rcases shard_cases hstep with ⟨left, -, -, -, rfl⟩ | ⟨left, -, -, -, rfl⟩ |
      ⟨uncalled, left, hpc, -, rfl⟩ | ⟨uncalled, left, hpc, -, -, -, rfl⟩
    · exact fun _ _ hp => by cases hp
    · exact fun _ _ hp => by cases hp
    · intro uncalled' left' hp j hj
      cases hp
      by_cases hji : j = i
      · subst hji
        simp [State.setServer, hlistens.stop]
      · have hj : j ∉ uncalled := by simpa [hji] using hj
        simpa [State.setServer, hji] using h uncalled left hpc j hj
    · intro uncalled' left' hp j hj
      cases hp
      exact h uncalled left hpc j hj
  | resume =>
    obtain ⟨-, hs'⟩ := resume_some hstep
    exact h.frame (by rw [hs']) fun i => by rw [hs']
  | signal sig =>
    obtain ⟨-, hs'⟩ := signal_some hstep
    exact h.frame (by rw [hs']) fun i => by rw [hs']
  | accept i =>
    obtain ⟨-, server, htake, rfl⟩ := accept_some hstep
    refine h.frame rfl fun j => ?_
    by_cases hji : j = i
    · subst hji
      simpa [State.setServer] using (hlistens.take _ _ htake).1
    · simp [State.setServer, hji]
  | answer i =>
    obtain ⟨-, server, hreply, rfl⟩ := answer_some hstep
    refine h.frame rfl fun j => ?_
    by_cases hji : j = i
    · subst hji
      simpa [State.setServer] using (hlistens.reply _ _ hreply).1
    · simp [State.setServer, hji]

theorem stopping_of_exec (hlistens : sea.KeepsListening) {acts : List (Act N)}
    (hex : exec (step env) (initial sea N) acts = some s) : Stopping s :=
  exec_invariant (fun _ _ _ h hstep => h.step hlistens hstep) (fun _ _ hp => by cases hp) hex

/-- `main_fut` runs on where what it awaits is there. -/
theorem main_enabled (env : MainFailures N) (h : Tracks s) (hready : s.ready = true) :
    ∃ s', step env s .main = some s' := by
  have henter : ∀ process pc, (pc = s.pc.next ∨ s.pc ≠ .begin ∧ pc = .ended) →
      ∃ s', enter s process pc = some s' := by
    intro process pc hpc
    have halive : s.pc ≠ .begin → s.signals.life 0 = .alive := by
      intro hbegin
      apply h.alive
      cases hp : s.pc <;> simp_all [Pc.inTry, State.ready]
    have hover : s.pc ≠ .begin → ∃ s', enter s process (.ended : Pc N) = some s' := by
      intro hbegin
      simp [enter, Pc.entering, StopSignal.step, halive hbegin]
    rcases hpc with rfl | ⟨hbegin, rfl⟩
    · have hawaits := h.awaits
      have hunborn := h.unborn
      cases hp : s.pc with
      | begin => simp [enter, Pc.next, Pc.entering, StopSignal.step, hunborn hp]
      | listen left =>
        rw [hp] at hawaits
        have hwait : sea.future s.signals.conditions 0 = none := hawaits
        simp [enter, Pc.next, Pc.entering, StopSignal.step, halive (by simp [hp]), hwait]
      | handlersStop | ended => exact hover (by simp [hp])
      | _ => simp [enter, Pc.next, Pc.entering]
    · exact hover hbegin
  simp only [step, hready, if_true, mainStep]
  rcases hrun : (s.pc.code env).run s.process with ⟨e | u, process⟩
  · refine henter process .ended (Or.inr ⟨fun hbegin => ?_, rfl⟩)
    rw [hbegin] at hrun
    cases hrun
  · exact henter process s.pc.next (Or.inl rfl)

/-- Where neither `main_fut` nor a shard nor a request goes on, `main_fut` is over, or it waits
for a signal and there was none, or for servers to stop. -/
theorem stuck_cases (h : Tracks s)
    (hstuck : ∀ a : Act N, a.internal = true → step env s a = none) :
    s.pc = .ended ∨ (s.pc = .waiting ∧ s.signals.caught 0 = false) ∨
      ∃ uncalled left i, s.pc = .serverStop uncalled left ∧ i ∈ left := by
  have hmain : s.ready = false := by
    by_contra hready
    obtain ⟨s', hs'⟩ := main_enabled env h (by simpa using hready)
    rw [hstuck .main rfl] at hs'
    cases hs'
  cases hpc : s.pc with
  | ended => exact Or.inl rfl
  | listen left =>
    have hleft : left ≠ ∅ := by simpa [State.ready, hpc] using hmain
    obtain ⟨i, hi⟩ := Finset.nonempty_iff_ne_empty.2 hleft
    have hshard := hstuck (.shard i) rfl
    simp only [step, shardStep, hpc, hi, if_true] at hshard
    split_ifs at hshard
  | serverStop uncalled left =>
    have hleft : left ≠ ∅ := by simpa [State.ready, hpc] using hmain
    obtain ⟨i, hi⟩ := Finset.nonempty_iff_ne_empty.2 hleft
    exact Or.inr (Or.inr ⟨uncalled, left, i, rfl, hi⟩)
  | waiting =>
    refine Or.inr (Or.inl ⟨rfl, ?_⟩)
    obtain ⟨acts, -, htells, -⟩ := h.history
    have hawaits := h.awaits
    rw [hpc] at hawaits
    rcases hawaits with hqueued | hwoken | hresolved
    · exact (htells.queued 0 0 hqueued).2
    · have hresume := hstuck .resume rfl
      have hfuture : sea.future s.signals.conditions 0 = some (0, .woken) := hwoken
      have hdangling := h.not_dangling (by rw [hpc]; rfl) hwoken
      simp [step, StopSignal.step, hfuture, hdangling] at hresume
    · simp [State.ready, hpc, hresolved] at hmain
  | _ => simp [State.ready, hpc] at hmain

/-- A shard whose server is awaited goes on: `stop` is called, or a request is answered, or `stop`
has come to its end. -/
theorem shard_enabled (env : MainFailures N) (hprogresses : sea.Progresses) (h : Stopping s)
    {uncalled left : Finset (Fin N)} (hpc : s.pc = .serverStop uncalled left) {i : Fin N}
    (hi : i ∈ left)
    (hnone : sea.stopping (s.servers i) = true → sea.take (s.servers i) = none) :
    ∃ a : Act N, a.internal = true ∧ step env s a ≠ none := by
  by_cases huncalled : i ∈ uncalled
  · exact ⟨.shard i, rfl, by simp [step, shardStep, hpc, huncalled]⟩
  have hstopping := h uncalled left hpc i huncalled
  by_cases hflight : sea.handling (s.servers i) = 0
  · have hstopped := hprogresses.stopped _ hstopping hflight (hnone hstopping)
    exact ⟨.shard i, rfl, by simp [step, shardStep, hpc, huncalled, hi, hstopped]⟩
  · obtain ⟨server, hreply⟩ := Option.isSome_iff_exists.1 (hprogresses.reply _ hflight)
    exact ⟨.answer i, rfl, by simp [step, hpc, hreply]⟩

/-- Where no server that is told to stop takes requests any more either, none is waited for. -/
theorem waits_of_stuck (hprogresses : sea.Progresses) (h : Tracks s) (hstopping : Stopping s)
    (hstuck : ∀ a : Act N, a.internal = true → step env s a = none)
    (hnone : ∀ i, sea.stopping (s.servers i) = true → sea.take (s.servers i) = none) :
    s.pc = .ended ∨ (s.pc = .waiting ∧ s.signals.caught 0 = false) := by
  rcases stuck_cases h hstuck with hended | hwaiting | ⟨uncalled, left, i, hpc, hi⟩
  · exact Or.inl hended
  · exact Or.inr hwaiting
  · obtain ⟨a, ha, hstep⟩ := shard_enabled env hprogresses hstopping hpc hi (hnone i)
    exact absurd (hstuck a ha) hstep

/-- Where `main_fut` comes to its end, the shards are idle, but for two exceptions. -/
theorem Safe.idle_of_main (h : Safe s) (hstep : Lifecycle.step env s .main = some s')
    (hended : s'.pc = .ended) :
    (∀ i, ¬ s'.Busy i) ∨ (∃ i, env.listen i ≠ none) ∨ env.wait ≠ none := by
  obtain ⟨hready, pc, -, hs', hpc⟩ := main_cases hstep
  obtain rfl : pc = .ended := by rw [← hended, hs']
  have hidle : (∀ i, s.pc.Idle i) → ∀ i, ¬ s'.Busy i := fun hi i hb =>
    h.idle i (hi i) ((busy_main hstep i).1 hb)
  cases hp : s.pc with
  | listen left =>
    rw [hp] at hpc
    rcases hpc with ⟨-, hnext⟩ | ⟨⟨e, he⟩, -⟩
    · cases hnext
    · refine Or.inr (Or.inl ?_)
      by_contra hlisten
      have hnone : ∀ i, env.listen i = none := by simpa using hlisten
      simp [Pc.code, run_act, Failures.first_eq_none.2 hnone] at he
  | waiting =>
    rw [hp] at hpc
    rcases hpc with ⟨-, hnext⟩ | ⟨⟨e, he⟩, -⟩
    · cases hnext
    · refine Or.inr (Or.inr fun hwait => ?_)
      simp [Pc.code, run_act, hwait] at he
  | serverStop uncalled left =>
    have hleft : left = ∅ := by simpa [State.ready, hp] using hready
    exact Or.inl (hidle fun i => by simp [hp, Pc.Idle, hleft])
  | ended => simp [State.ready, hp] at hready
  | _ => exact Or.inl (hidle fun i => by rw [hp]; trivial)

/-- Requests are left behind at the end only where `listen` failed on some shard, and others have
taken them, or where `wait()` threw. -/
theorem idle_of_ended (hdrains : sea.Drains) {acts : List (Act N)}
    (hex : exec (step env) (initial sea N) acts = some s) (hended : s.pc = .ended) :
    (∀ i, ¬ s.Busy i) ∨ (∃ i, env.listen i ≠ none) ∨ env.wait ≠ none := by
  have h : Safe s ∧ (s.pc = .ended →
      (∀ i, ¬ s.Busy i) ∨ (∃ i, env.listen i ≠ none) ∨ env.wait ≠ none) := by
    refine exec_invariant (I := fun s => Safe s ∧ (s.pc = .ended →
      (∀ i, ¬ s.Busy i) ∨ (∃ i, env.listen i ≠ none) ∨ env.wait ≠ none)) ?_
      ⟨safe_initial hdrains, nofun⟩ hex
    rintro s a s' ⟨hsafe, ih⟩ hstep
    refine ⟨hsafe.step hdrains hstep, fun hended => ?_⟩
    cases a with
    | main => exact hsafe.idle_of_main hstep hended
    | shard i => exact absurd hended (shard_some hstep).2
    | resume =>
      obtain ⟨-, hs'⟩ := resume_some hstep
      rw [hs'] at hended ⊢
      exact ih hended
    | signal sig =>
      obtain ⟨-, hs'⟩ := signal_some hstep
      rw [hs'] at hended ⊢
      exact ih hended
    | accept i =>
      obtain ⟨hpc, server, -, rfl⟩ := accept_some hstep
      exact absurd hended hpc
    | answer i =>
      obtain ⟨hpc, server, -, rfl⟩ := answer_some hstep
      exact absurd hended hpc
  exact h.2 hended

/-- The steps of `main_fut`, of the shards and of the requests are bounded by the number of shards
and of requests taken. -/
theorem internal_le (hsignals : sea.HandlesSignals) (hwakes : sea.WakesWaiters)
    (hdrains : sea.Drains) {acts : List (Act N)}
    (hex : exec (step env) (initial sea N) acts = some s) :
    acts.countP Act.internal ≤ 3 * N + 11 + acts.countP Act.isAccept := by
  have hbudget := exec_budget (I := Tracks) State.left Act.internal Act.isAccept
    (fun _ _ _ h hstep => h.step hsignals hwakes hstep)
    (fun _ _ _ h hstep => left_step hwakes hdrains h hstep) (tracks_initial hsignals hwakes) hex
  rw [left_initial hwakes hdrains] at hbudget
  omega

/-- **`main_fut` comes to its end, and not before a signal.** In every run the steps of `main_fut`,
of the shards and of the requests are bounded by the number of shards and of requests taken. Where
none of them is left, and no request on the open connections of a server that is told to stop,
`main_fut` is over, or it waits and no signal has arrived since it began; and nothing is stopped
before one has. -/
theorem main_fut_ends (hsignals : sea.HandlesSignals) (hwakes : sea.WakesWaiters)
    (hdrains : sea.Drains) (hlistens : sea.KeepsListening) (hprogresses : sea.Progresses)
    {acts : List (Act N)} (hex : exec (step env) (initial sea N) acts = some s) :
    acts.countP Act.internal ≤ 3 * N + 11 + acts.countP Act.isAccept ∧
    ((∀ a : Act N, a.internal = true → step env s a = none) →
      (∀ i, sea.stopping (s.servers i) = true → sea.take (s.servers i) = none) →
      s.pc = .ended ∨ (s.pc = .waiting ∧ ¬ Signalled sea env acts)) ∧
    ∀ service, .stopped service ∈ s.process.events → Signalled sea env acts := by
  refine ⟨internal_le hsignals hwakes hdrains hex, fun hstuck hnone => ?_, fun service hmem =>
    (caught_iff hsignals hwakes hex).1 (caught_of_stopped hsignals hwakes hex hmem)⟩
  refine (waits_of_stuck hprogresses (tracks_of_exec hsignals hwakes hex)
    (stopping_of_exec hlistens hex) hstuck hnone).imp_right fun hwaiting => ?_
  rw [← caught_iff hsignals hwakes hex, hwaiting.2]
  exact ⟨hwaiting.1, Bool.false_ne_true⟩

/-! ## The run without interleavings -/

/-- What `listen` does on the shards of `left`, in their order. -/
def listenEvents (env : MainFailures N) (left : Finset (Fin N)) : List (Event N) :=
  ((List.finRange N).filter fun i => i ∈ left ∧ env.listen i = none).map .listening

/-- The code of `main_fut` from a point on. -/
def Pc.rest (env : MainFailures N) : Pc N → Fut Exn (Process N) Unit
  | .begin | .init => do SeastarStarter.init env.init; serve env
  | .mutexes => serve env
  | .handlers => do
    start .handlers env.handlersStart
    start .server env.serverStart
    act [] env.setRoutes.first
    invokeOnAll env.listen .listening
    act [] env.wait
    stop .server env.serverStop
    stop .handlers env.handlersStop
  | .server => do
    start .server env.serverStart
    act [] env.setRoutes.first
    invokeOnAll env.listen .listening
    act [] env.wait
    stop .server env.serverStop
    stop .handlers env.handlersStop
  | .routes => do
    act [] env.setRoutes.first
    invokeOnAll env.listen .listening
    act [] env.wait
    stop .server env.serverStop
    stop .handlers env.handlersStop
  | .listen left => do
    act (listenEvents env left) env.listen.first
    act [] env.wait
    stop .server env.serverStop
    stop .handlers env.handlersStop
  | .waiting => do
    act [] env.wait
    stop .server env.serverStop
    stop .handlers env.handlersStop
  | .serverStop .. => do
    stop .server env.serverStop
    stop .handlers env.handlersStop
  | .handlersStop => stop .handlers env.handlersStop
  | .ended => return

theorem listenEvents_univ : listenEvents env Finset.univ =
    ((List.finRange N).filter fun i => (env.listen i).isNone).map .listening := by
  unfold listenEvents
  congr 2
  funext i
  cases env.listen i <;> simp

/-- The code at a point comes first. -/
theorem rest_eq (hready : s.ready = true) :
    s.pc.rest env = s.pc.code env >>= fun _ => s.pc.next.rest env := by
  cases hpc : s.pc with
  | ended => simp [State.ready, hpc] at hready
  | listen left =>
    have hleft : left = ∅ := by simpa [State.ready, hpc] using hready
    simp [Pc.rest, Pc.code, Pc.next, listenEvents, hleft]
  | routes => simp [Pc.rest, Pc.code, Pc.next, listenEvents_univ, invokeOnAll]
  | begin => simp [Pc.rest, Pc.code, Pc.next]
  | handlersStop => simp [Pc.rest, Pc.code, Pc.next]
  | _ => rfl

/-- The process at the end, if `main_fut` ran on by itself. -/
def State.final (env : MainFailures N) (s : State sea N) : Process N :=
  ((s.pc.rest env).run s.process).2

theorem final_initial : (initial sea N).final env = ((mainFut env).run (Process.initial N)).2 := by
  show ((SeastarStarter.init env.init >>= fun _ => serve env).run (Process.initial N)).2 = _
  unfold mainFut
  rw [Fut.run_tryCatch]
  rcases (SeastarStarter.init env.init >>= fun _ => serve env).run (Process.initial N) with ⟨e | u, p⟩ <;> rfl

theorem final_main (hstep : step env s .main = some s') : s'.final env = s.final env := by
  obtain ⟨hready, pc, -, hs', hpc⟩ := main_cases hstep
  have hfinal : s.final env =
      ((s.pc.code env >>= fun _ => s.pc.next.rest env).run s.process).2 := by
    unfold State.final
    rw [rest_eq hready]
  have hend : s'.final env = ((pc.rest env).run ((s.pc.code env).run s.process).2).2 := by
    rw [hs']
    rfl
  rw [hfinal, hend, Fut.run_bind]
  rcases hrun : (s.pc.code env).run s.process with ⟨e | u, process⟩
  · rw [hrun] at hpc
    rcases hpc with ⟨⟨u, hu⟩, -⟩ | ⟨-, rfl⟩
    · cases hu
    · rfl
  · rw [hrun] at hpc
    rcases hpc with ⟨-, rfl⟩ | ⟨⟨e, he⟩, -⟩
    · rfl
    · cases he

/-- What comes of the end of `main_fut`, from the signal on. -/
def shutdownEvents (env : MainFailures N) : List (Event N) :=
  match env.wait, env.serverStop.first with
  | some _, _ => []
  | none, some _ => [.stopped .server]
  | none, none => [.stopped .server, .stopped .handlers]

/-- The events of `listen`, and then those of the end, where no shard failed. -/
theorem final_listen {left : Finset (Fin N)} (hpc : s.pc = .listen left) :
    s.final env = { s.process with events := s.process.events ++ (listenEvents env left ++
      if env.listen.first.isNone then shutdownEvents env else []) } := by
  unfold State.final
  rw [hpc, Pc.rest, run_act_bind]
  cases env.listen.first with
  | some e => simp
  | none =>
    dsimp only
    rw [run_act_bind]
    unfold shutdownEvents
    cases env.wait with
    | some e => simp
    | none =>
      dsimp only
      unfold stop
      rw [run_act_bind]
      cases env.serverStop.first <;> simp [run_act]

/-- A shard that listens moves its event to the front. -/
theorem listenEvents_erase (env : MainFailures N) {left : Finset (Fin N)} {i : Fin N} (hi : i ∈ left) :
    (listenEvents env left).Perm
      ((if env.listen i = none then [.listening i] else []) ++ listenEvents env (left.erase i)) := by
  have hfilter : ((List.finRange N).filter fun j => j ∈ left ∧ env.listen j = none).Perm
      ((if env.listen i = none then [i] else []) ++
        (List.finRange N).filter fun j => j ∈ left.erase i ∧ env.listen j = none) := by
    have hnodup := List.nodup_finRange N
    by_cases hlisten : env.listen i = none
    · rw [if_pos hlisten, List.singleton_append]
      refine (List.perm_ext_iff_of_nodup (hnodup.filter _)
        (List.nodup_cons.2 ⟨by simp, hnodup.filter _⟩)).2 fun j => ?_
      by_cases hji : j = i <;> simp [hji, hi, hlisten]
    · rw [if_neg hlisten, List.nil_append]
      refine (List.perm_ext_iff_of_nodup (hnodup.filter _) (hnodup.filter _)).2 fun j => ?_
      by_cases hji : j = i <;> simp [hji, hlisten]
  have hmap := hfilter.map (Event.listening (N := N))
  unfold listenEvents
  by_cases hlisten : env.listen i = none <;> simpa [hlisten] using hmap

/-- What the other steps change makes no difference to the end, up to the order of the shards. -/
theorem final_step {a : Act N} (hstep : step env s a = some s') :
    (s'.final env).events.Perm (s.final env).events ∧
      (s'.final env).dbClients = (s.final env).dbClients := by
  cases a with
  | main => rw [final_main hstep]; exact ⟨List.Perm.refl _, rfl⟩
  | shard i =>
    rcases shard_cases hstep with ⟨left, hpc, hi, hlisten, rfl⟩ | ⟨left, hpc, hi, hlisten, rfl⟩ |
      ⟨uncalled, left, hpc, -, rfl⟩ | ⟨uncalled, left, hpc, -, -, -, rfl⟩
    · rw [final_listen hpc, final_listen (s := State.mk _ _ _ _) rfl]
      have hperm := listenEvents_erase env hi
      rw [if_pos hlisten] at hperm
      refine ⟨?_, rfl⟩
      simpa using (hperm.symm.append_right _).append_left s.process.events
    · rw [final_listen hpc, final_listen (s := State.mk _ _ _ _) rfl]
      have hperm := listenEvents_erase env hi
      rw [if_neg hlisten] at hperm
      refine ⟨?_, rfl⟩
      simpa using (hperm.symm.append_right _).append_left s.process.events
    all_goals
      unfold State.final
      rw [hpc]
      exact ⟨List.Perm.refl _, rfl⟩
  | _ =>
    obtain ⟨hpc, hprocess⟩ := stays_of_step hstep nofun nofun
    unfold State.final
    rw [hpc, hprocess]
    exact ⟨List.Perm.refl _, rfl⟩

/-- What is still to come is appended to what has happened. -/
theorem moves_rest (env : MainFailures N) (pc : Pc N) : Fut.Moves (Emits fun _ => True) (pc.rest env) := by
  have hstop : ∀ service failures, Fut.Moves (Emits fun _ : Event N => True) (stop service failures) :=
    fun _ _ => moves_stop trivial _
  have hstart : ∀ service failures, Fut.Moves (Emits fun _ : Event N => True) (start service failures) :=
    fun _ _ => moves_start trivial _
  have hact : ∀ events error, Fut.Moves (Emits fun _ : Event N => True) (act events error) :=
    fun _ _ => moves_act (fun _ _ => trivial) _
  have hhandlersStop := hstop .handlers env.handlersStop
  have hserverStop := (hstop .server env.serverStop).bind fun _ => hhandlersStop
  have hwait := (hact [] env.wait).bind fun _ => hserverStop
  have hlisten : Fut.Moves (Emits fun _ => True) (invokeOnAll env.listen .listening) :=
    moves_invokeOnAll (fun _ => trivial) _
  have hroutes := (hact [] env.setRoutes.first).bind fun _ => hlisten.bind fun _ => hwait
  have hserver := (hstart .server env.serverStart).bind fun _ => hroutes
  have hhandlers := (hstart .handlers env.handlersStart).bind fun _ => hserver
  have hmutexes : Fut.Moves (Emits fun _ => True) (serve env) :=
    (hstart .mutexes env.mutexStart).bind fun _ => hhandlers
  have hinit : Fut.Moves (Emits fun _ => True)
      (SeastarStarter.init env.init >>= fun _ => serve env) := by
    refine Fut.Moves.bind (fun p => ?_) fun _ => hmutexes
    rw [run_init]
    exact ⟨initEvents env.init, rfl, fun _ _ => trivial⟩
  cases pc with
  | begin | init => exact hinit
  | mutexes => exact hmutexes
  | handlers => exact hhandlers
  | server => exact hserver
  | routes => exact hroutes
  | listen left => exact (hact _ _).bind fun _ => hwait
  | waiting => exact hwait
  | serverStop uncalled left => exact hserverStop
  | handlersStop => exact hhandlersStop
  | ended => exact fun p => ⟨[], by simp [Pc.rest], by simp⟩

/-- Behind the `try` block there is no handler of `stop_signal` any more. -/
theorem handler_of_ended (hsignals : sea.HandlesSignals) {acts : List (Act N)}
    (hex : exec (step env) (initial sea N) acts = some s) (hended : s.pc = .ended) (sig : Signal) :
    sea.handler s.signals.signals sig = .noop := by
  refine exec_invariant (I := fun s => s.pc = .ended → sea.handler s.signals.signals sig = .noop) ?_
    (fun h => by cases h) hex hended
  intro s a s' ih hstep hended
  cases a with
  | main =>
    obtain ⟨-, pc, hentered, hs', -⟩ := main_cases hstep
    obtain rfl : pc = .ended := by rw [← hended, hs']
    have hdestroy : StopSignal.step s.signals (.destroy 0) = some s'.signals := hentered
    rw [(StopSignal.destroy_some hdestroy).2]
    exact StopSignal.handler_register hsignals _ _ _
  | shard i => exact absurd hended (shard_some hstep).2
  | resume =>
    obtain ⟨hresume, hs'⟩ := resume_some hstep
    obtain ⟨o, -, -, hrerun⟩ := StopSignal.resume_some hresume
    rw [hs'] at hended
    rw [hrerun, StopSignal.rerun]
    split_ifs <;> exact ih hended
  | signal sig' =>
    obtain ⟨hdeliver, hs'⟩ := signal_some hstep
    rw [hs'] at hended
    have hnoop := ih hended
    rcases StopSignal.deliver_some hdeliver with ⟨o, -, hs⟩ | ⟨-, hs⟩
    · rw [hs, StopSignal.signaled]
      split_ifs <;> exact hnoop
    · rw [hs]
      exact hnoop
  | accept i =>
    obtain ⟨-, server, -, rfl⟩ := accept_some hstep
    exact ih hended
  | answer i =>
    obtain ⟨-, server, -, rfl⟩ := answer_some hstep
    exact ih hended

/-- **The interleavings make no difference to what `main_fut` does.** By every moment of every run
has happened only what `mainFut`, run by itself, does, and nothing more often; and when `main_fut`
is over, all of it has happened, with the flags of `db_clients` as there, and the handlers of the
signals do nothing any more. Only the order in which the shards come to listen is left open. -/
theorem main_fut_refines (hsignals : sea.HandlesSignals) {acts : List (Act N)}
    (hex : exec (step env) (initial sea N) acts = some s) :
    s.process.events.Subperm (mainEvents env) ∧
    (s.pc = .ended → s.process.events.Perm (mainEvents env) ∧
      s.process.dbClients = ((mainFut env).run (Process.initial N)).2.dbClients ∧
      ∀ sig, sea.handler s.signals.signals sig = .noop) := by
  have hfinal : (s.final env).events.Perm (mainEvents env) ∧
      (s.final env).dbClients = ((mainFut env).run (Process.initial N)).2.dbClients := by
    refine exec_invariant (I := fun s => (s.final env).events.Perm (mainEvents env) ∧
      (s.final env).dbClients = ((mainFut env).run (Process.initial N)).2.dbClients) ?_ ?_ hex
    · rintro s a s' ⟨hevents, hclients⟩ hstep
      obtain ⟨hperm, heq⟩ := final_step hstep
      exact ⟨hperm.trans hevents, heq.trans hclients⟩
    · rw [final_initial]
      exact ⟨List.Perm.refl _, rfl⟩
  refine ⟨?_, fun hended => ?_⟩
  · obtain ⟨more, hmore, -⟩ := moves_rest env s.pc s.process
    refine List.Sublist.subperm ?_ |>.trans hfinal.1.subperm
    rw [State.final, hmore]
    exact List.sublist_append_left _ _
  · have hprocess : s.final env = s.process := by
      unfold State.final
      rw [hended]
      rfl
    rw [hprocess] at hfinal
    exact ⟨hfinal.1, hfinal.2, handler_of_ended hsignals hex hended⟩

/-- Two shards: one of them takes a request just before the signal, and answers it after. -/
def lastRequest : List (Act 2) :=
  let first := (Fin.last 0).castSucc
  let second := Fin.last 1
  List.replicate 6 .main ++ [.shard second, .accept second, .shard first, .main, .signal .SIGTERM,
    .resume, .main, .shard first, .shard second, .answer second, .shard second, .shard first, .main,
    .main]

theorem main_fut_ends_lastRequest : ∃ s,
    exec (step (noFailures 2)) (initial .plain 2) lastRequest = some s ∧
      lastRequest.countP Act.internal ≤ 3 * 2 + 11 + lastRequest.countP Act.isAccept := by
  obtain ⟨s, hex⟩ := Option.isSome_iff_exists.1
    (show (exec (step (noFailures 2)) (initial .plain 2) lastRequest).isSome = true by
      decide +kernel)
  exact ⟨s, hex, (main_fut_ends Seastar.plain_handlesSignals Seastar.plain_wakesWaiters
    Seastar.plain_drains Seastar.plain_keepsListening Seastar.plain_progresses hex).1⟩

theorem main_fut_refines_lastRequest : ∃ s,
    exec (step (noFailures 2)) (initial .plain 2) lastRequest = some s ∧
      s.process.events.Perm (mainEvents (noFailures 2)) := by
  obtain ⟨s, hex, hended⟩ := Option.map_eq_some_iff.1
    (show (exec (step (noFailures 2)) (initial .plain 2) lastRequest).map (fun s => s.pc) =
      some .ended by decide +kernel)
  exact ⟨s, hex, ((main_fut_refines Seastar.plain_handlesSignals hex).2 hended).1⟩

end Lifecycle
end SeastarStarter
