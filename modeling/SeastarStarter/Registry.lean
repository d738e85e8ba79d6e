import Mathlib.Logic.Function.Basic
import SeastarStarter.EventRouter
import SeastarStarter.Lib.Lts

/-!
# What `event_router` is for: a registry of live registrations

`Registry` is the purpose of the router in its own terms: registrations, each live from its
attach to its detach, and a dispatch that reaches every live one once. `Session` runs the
router of `EventRouter.lean` next to it, for clients that detach only the handle their own
attach returned and at most once. The handlers the router is given carry the number of their
registration, so that two clients with equal handlers stay apart.

* `refines_iff_attachFresh`: the router refines the registry in exactly the runs in which no
  attach finds `next_handle` taken.
* `refines_registry_iff`: since `detach` lowers the counter, `next_handle` is the number of
  live registrations plus one, so the runs are told apart by the order of the operations alone:
  an attach made while `n` registrations are live collides with a live one that was itself
  attached while `n` were.
-/

namespace SeastarStarter

open UnorderedMap Lts

variable {F EventT : Type}

/-- One attach: its number in the run and the handler it brought. -/
structure Registration (F : Type) where
  id : Nat
  handler : F

/-! ## The registry -/

inductive Op (F : Type) where
  | attach (handler : F)
  | detach (id : Nat)

structure Registry (F : Type) where
  issued : Nat
  live : Map Nat F
  /-- How many registrations were live when registration `id` was made. -/
  rankOf : Nat → Nat

namespace Registry

def fresh : Registry F := ⟨0, ∅, fun _ => 0⟩

def attach (g : Registry F) (handler : F) : Registry F :=
  ⟨g.issued + 1, g.live.insert g.issued handler, Function.update g.rankOf g.issued (size g.live)⟩

def detach (g : Registry F) (id : Nat) : Registry F := ⟨g.issued, g.live.erase id, g.rankOf⟩

/-- A client may detach only its own registration, and only while it is live. -/
def step (g : Registry F) : Op F → Option (Registry F)
  | .attach handler => some (g.attach handler)
  | .detach id => if id ∈ g.live then some (g.detach id) else none

/-- The live registrations. -/
def registrations (g : Registry F) : Multiset (Registration F) :=
  g.live.entries.map fun e => ⟨e.1, e.2⟩

/-- A dispatch: every live registration once. -/
def dispatch (g : Registry F) (event : EventT) : Multiset (Registration F × EventT) :=
  g.registrations.map fun reg => (reg, event)

/-- No live registration was made while as many were live as are now (in `size_t`). -/
def RankFree (g : Registry F) : Op F → Prop
  | .attach _ => ∀ id ∈ g.live, BitVec.ofNat 64 (g.rankOf id) ≠ BitVec.ofNat 64 (size g.live)
  | .detach _ => True

end Registry

/-! ## The router under clients that keep to their own handle -/

structure Session (F : Type) where
  router : EventRouter (Registration F)
  /-- What the attach of registration `id` returned. -/
  handleOf : Nat → SizeT
  registry : Registry F

namespace Session

def fresh : Session F := ⟨.fresh, fun _ => 0, .fresh⟩

def step (s : Session F) : Op F → Option (Session F)
  | .attach handler =>
    let (handle, router) := s.router.attach ⟨s.registry.issued, handler⟩
    some ⟨router, Function.update s.handleOf s.registry.issued handle, s.registry.attach handler⟩
  | .detach id =>
    if id ∈ s.registry.live then
      some ⟨(s.router.detach (s.handleOf id)).2, s.handleOf, s.registry.detach id⟩
    else none

/-- What a step has to do: an attach returns a handle that no live registration has; a detach
returns true and takes exactly its registration out of the container. -/
def StepRefines (s : Session F) : Op F → Prop
  | .attach handler =>
    ∀ id ∈ s.registry.live, (s.router.attach ⟨s.registry.issued, handler⟩).1 ≠ s.handleOf id
  | .detach id => ∀ handler, s.registry.live.lookup id = some handler →
    (s.router.detach (s.handleOf id)).1 = true ∧
      values s.router.dispatchContainer =
        ⟨id, handler⟩ ::ₘ values (s.router.detach (s.handleOf id)).2.dispatchContainer

/-- `call(event)` invokes exactly the live registrations, each once. -/
def CallRefines (EventT : Type) (s : Session F) : Prop :=
  ∀ event : EventT, s.router.call event = s.registry.dispatch event

/-- The run `ops` of a fresh router refines the registry, at every step and every point. -/
def Refines (EventT : Type) (ops : List (Op F)) : Prop :=
  Along step StepRefines fresh ops ∧ Always step (CallRefines EventT) fresh ops

/-- An attach finds the handle it is about to issue free. -/
def AttachFresh (s : Session F) : Op F → Prop
  | .attach _ => s.router.nextHandle ∉ s.router.dispatchContainer
  | .detach _ => True

/-! ### The invariant: the container is the registry, under the handles returned -/

structure Inv (s : Session F) : Prop where
  below : ∀ id ∈ s.registry.live, id < s.registry.issued
  entries : s.router.dispatchContainer.entries =
    s.registry.live.entries.map fun e => ⟨s.handleOf e.1, ⟨e.1, e.2⟩⟩

theorem inv_fresh : Inv (fresh : Session F) := by
  refine ⟨fun id h => absurd h Finmap.notMem_empty, rfl⟩

theorem Inv.values {s : Session F} (hI : Inv s) :
    values s.router.dispatchContainer = s.registry.registrations := by
  unfold UnorderedMap.values Registry.registrations
  rw [hI.entries, Multiset.map_map]
  rfl

theorem Inv.callRefines {s : Session F} (hI : Inv s) : CallRefines EventT s := by
  intro event
  rw [EventRouter.call_eq, hI.values]
  rfl

/-- The container holds a live registration under the handle its attach returned. -/
theorem Inv.lookup {s : Session F} (hI : Inv s) {id : Nat} {handler : F}
    (h : s.registry.live.lookup id = some handler) :
    s.router.dispatchContainer.lookup (s.handleOf id) = some ⟨id, handler⟩ := by
  rw [Finmap.lookup_eq_some_iff, hI.entries]
  exact Multiset.mem_map.2 ⟨⟨id, handler⟩, Finmap.lookup_eq_some_iff.1 h, rfl⟩

/-- A handle in the container was returned to a live registration. -/
theorem Inv.exists_live {s : Session F} (hI : Inv s) {handle : SizeT}
    (h : handle ∈ s.router.dispatchContainer) :
    ∃ id ∈ s.registry.live, s.handleOf id = handle := by
  obtain ⟨reg, hreg⟩ := Finmap.mem_iff.1 h
  have hmem := Finmap.lookup_eq_some_iff.1 hreg
  rw [hI.entries, Multiset.mem_map] at hmem
  obtain ⟨⟨id, handler⟩, hlive, heq⟩ := hmem
  exact ⟨id, mem_of_mem_entries hlive, congrArg Sigma.fst heq⟩

theorem Inv.step_attach {s s' : Session F} {handler : F} (hI : Inv s)
    (hfresh : s.router.nextHandle ∉ s.router.dispatchContainer)
    (h : step s (.attach handler) = some s') : Inv s' := by
  cases h
  have hnew : s.registry.issued ∉ s.registry.live := fun hm => Nat.lt_irrefl _ (hI.below _ hm)
  refine ⟨fun id hid => ?_, ?_⟩
  · rcases Finmap.mem_insert.1 hid with rfl | hid
    · exact Nat.lt_succ_self _
    · exact Nat.lt_succ_of_lt (hI.below id hid)
  · have hold : ∀ e ∈ s.registry.live.entries,
        (⟨Function.update s.handleOf s.registry.issued s.router.nextHandle e.1, ⟨e.1, e.2⟩⟩ :
          Sigma fun _ : SizeT => Registration F) = ⟨s.handleOf e.1, ⟨e.1, e.2⟩⟩ := by
      intro e he
      have hlt := hI.below e.1 (mem_of_mem_entries he)
      rw [Function.update_of_ne (Nat.ne_of_lt hlt)]
    simp only [Registry.attach]
    rw [entries_emplace_of_notMem _ hfresh, Finmap.entries_insert_of_notMem hnew, Multiset.map_cons,
      Multiset.map_congr rfl hold, Function.update_self, hI.entries]

theorem Inv.detach {s : Session F} {id : Nat} {handler : F} (hI : Inv s)
    (h : s.registry.live.lookup id = some handler) :
    s.router.detach (s.handleOf id) =
      (true, ⟨s.router.nextHandle - 1, s.router.dispatchContainer.erase (s.handleOf id)⟩) :=
  EventRouter.detach_of_mem (Finmap.mem_of_lookup_eq_some (hI.lookup h))

theorem Inv.step_detach {s s' : Session F} {id : Nat} (hI : Inv s)
    (h : step s (.detach id) = some s') : Inv s' := by
  simp only [step] at h
  split at h
  · rename_i hlive
    obtain ⟨handler, hlook⟩ := Finmap.mem_iff.1 hlive
    cases h
    refine ⟨fun k hk => hI.below k (Finmap.mem_erase.1 hk).2, ?_⟩
    rw [hI.detach hlook]
    -- both sides lose the one entry of `id`
    have hc := hI.entries
    rw [entries_eq_cons_erase (hI.lookup hlook), entries_eq_cons_erase hlook, Multiset.map_cons] at hc
    exact (Multiset.cons_inj_right _).1 hc
  · cases h

theorem Inv.step {s s' : Session F} {op : Op F} (hI : Inv s) (hop : AttachFresh s op)
    (h : step s op = some s') : Inv s' := by
  cases op with
  | attach handler => exact hI.step_attach hop h
  | detach id => exact hI.step_detach h

/-! ### Fresh attaches are exactly what refinement needs -/

theorem Inv.stepRefines {s : Session F} {op : Op F} (hI : Inv s) (hop : AttachFresh s op) :
    StepRefines s op := by
  cases op with
  | attach handler =>
    intro id hid heq
    obtain ⟨h, hlook⟩ := Finmap.mem_iff.1 hid
    have hmem := Finmap.mem_of_lookup_eq_some (hI.lookup hlook)
    rw [← heq] at hmem
    exact hop hmem
  | detach id =>
    intro handler hlook
    rw [hI.detach hlook]
    exact ⟨rfl, values_eq_cons_erase (hI.lookup hlook)⟩

theorem Inv.attachFresh {s : Session F} {op : Op F} (hI : Inv s) (hop : StepRefines s op) :
    AttachFresh s op := by
  cases op with
  | attach handler =>
    intro hmem
    obtain ⟨id, hid, heq⟩ := hI.exists_live hmem
    exact hop id hid heq.symm
  | detach id => trivial

/-- As long as the steps refine the registry, the attaches were fresh and the invariant holds. -/
theorem along_attachFresh {s : Session F} {ops : List (Op F)} (hI : Inv s)
    (h : Along step StepRefines s ops) : Along step AttachFresh s ops := by
  induction ops generalizing s with
  | nil => exact along_nil
  | cons op ops ih =>
    obtain ⟨hop, hrest⟩ := along_cons.1 h
    have hfresh := hI.attachFresh hop
    exact along_cons.2 ⟨hfresh, fun m hm => ih (hI.step hfresh hm) (hrest m hm)⟩

theorem refines_iff_attachFresh (ops : List (Op F)) :
    Refines EventT ops ↔ Along step AttachFresh fresh ops := by
  constructor
  · intro h; exact along_attachFresh inv_fresh h.1
  · intro h
    have hinv : Always step Inv fresh ops :=
      always_of_along (fun _ _ _ hI hop hs => Inv.step hI hop hs) inv_fresh h
    refine ⟨fun pre op post m heq hpre => ?_, hinv.mono fun _ hI => hI.callRefines⟩
    exact Inv.stepRefines (hinv pre (op :: post) m heq hpre) (h pre op post m heq hpre)

/-! ### The same condition on the order of the operations -/

theorem step_registry (s : Session F) (op : Op F) :
    (step s op).map Session.registry = s.registry.step op := by
  cases op with
  | attach handler => rfl
  | detach id =>
    simp only [step, Registry.step]
    split <;> rfl

/-- The counter counts the live registrations, and a handle is the count at its attach. -/
structure Counted (s : Session F) : Prop extends Inv s where
  next : s.router.nextHandle = BitVec.ofNat 64 (size s.registry.live) + 1
  rank : ∀ id ∈ s.registry.live, s.handleOf id = BitVec.ofNat 64 (s.registry.rankOf id) + 1

theorem counted_fresh : Counted (fresh : Session F) :=
  ⟨inv_fresh, rfl, fun _ h => absurd h Finmap.notMem_empty⟩

theorem Counted.step {s s' : Session F} {op : Op F} (hI : Counted s) (hop : AttachFresh s op)
    (h : step s op = some s') : Counted s' := by
  refine ⟨hI.toInv.step hop h, ?_, ?_⟩
  · cases op with
    | attach handler =>
      cases h
      have hnew : s.registry.issued ∉ s.registry.live := fun hm => Nat.lt_irrefl _ (hI.below _ hm)
      simp only [Registry.attach]
      rw [size_insert_of_notMem _ hnew, hI.next, BitVec.ofNat_add]
      rfl
    | detach id =>
      simp only [Session.step] at h
      split at h
      · rename_i hlive
        obtain ⟨handler, hlook⟩ := Finmap.mem_iff.1 hlive
        cases h
        rw [hI.detach hlook]
        simp only [Registry.detach]
        rw [hI.next, size_eq_succ_erase hlook, BitVec.ofNat_add]
        bv_omega
      · cases h
  · intro id hid
    cases op with
    | attach handler =>
      cases h
      simp only [Registry.attach] at hid ⊢
      by_cases he : id = s.registry.issued
      · subst he
        rw [Function.update_self, Function.update_self]
        exact hI.next
      · rw [Function.update_of_ne he, Function.update_of_ne he]
        exact hI.rank id ((Finmap.mem_insert.1 hid).resolve_left he)
    | detach k =>
      simp only [Session.step] at h
      split at h
      · cases h
        exact hI.rank id (Finmap.mem_erase.1 hid).2
      · cases h

theorem Counted.attachFresh_iff {s : Session F} (hI : Counted s) (op : Op F) :
    AttachFresh s op ↔ s.registry.RankFree op := by
  cases op with
  | detach id => exact Iff.rfl
  | attach handler =>
    constructor
    · intro hfresh id hid heq
      obtain ⟨h, hlook⟩ := Finmap.mem_iff.1 hid
      have hmem := Finmap.mem_of_lookup_eq_some (hI.lookup hlook)
      rw [hI.rank id hid, heq, ← hI.next] at hmem
      exact hfresh hmem
    · intro hrank hmem
      obtain ⟨id, hid, heq⟩ := hI.exists_live hmem
      rw [hI.rank id hid, hI.next] at heq
      exact hrank id hid ((BitVec.add_left_inj _).1 heq)

theorem along_attachFresh_iff {s : Session F} (hI : Counted s) (ops : List (Op F)) :
    Along step AttachFresh s ops ↔ Along step (fun m op => m.registry.RankFree op) s ops := by
  induction ops generalizing s with
  | nil => exact iff_of_true along_nil along_nil
  | cons op ops ih =>
    rw [along_cons, along_cons, hI.attachFresh_iff]
    refine and_congr_right fun hop => forall_congr' fun m => imp_congr_right fun hm => ?_
    exact ih (hI.step ((hI.attachFresh_iff op).2 hop) hm)

/-- **When the router refines the registry.** Over every run of attaches and detaches of a
fresh router: handles are unique among the live ones, each detach removes its own registration
and every call reaches exactly the live handlers, if and only if no attach of the run is made
while as many registrations are live as were live when one of them was made. -/
theorem refines_registry_iff (ops : List (Op F)) :
    Refines EventT ops ↔ Along Registry.step Registry.RankFree Registry.fresh ops := by
  rw [refines_iff_attachFresh, along_attachFresh_iff counted_fresh]
  exact along_map step_registry

/-- Two attaches (handles 1 and 2), the first one detached, and the third attach is handed
handle 2 as well: its handler is not stored and two live registrations share a handle. -/
theorem not_refines_registry :
    ¬ ∀ ops : List (Op Unit), Refines Unit ops := by
  intro h
  have hstep := (h [.attach (), .attach (), .detach 0, .attach ()]).1
    [.attach (), .attach (), .detach 0] (.attach ()) [] _ rfl rfl
  exact hstep 1 (by decide) (by decide)

end Session
end SeastarStarter
