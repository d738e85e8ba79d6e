import SeastarStarter.Lib.UnorderedMap

/-!
# `event_router` (INCLUDE/EVENTS.h)

| here | there |
| --- | --- |
| `EventRouter`       | `class event_router` (`EVENTS.h:15-62`); `H` stands for the `std::function` a client attaches |
| `EventRouter.call`  | `call` (`:26-37`): what `parallel_for_each` invokes, in no particular order |
| `EventRouter.attach`| `attach` (`:39-45`) |
| `EventRouter.tryAttach` | `attach` where it may throw |
| `EventRouter.detach`| `detach` (`:52-61`) |
| `EventRouterRAII`   | `class event_router_RAII` (`:64-98`) |

`attach` and `detach` take the router's lock and have no suspension point, so each is one step
of the reactor; the lock itself is never contended and is left out. What `attach` may throw is
what copying the handler and `emplace` throw, and an `emplace` that throws leaves the container
as it was.
-/

namespace SeastarStarter

open UnorderedMap

/-- `size_t`: the handle counter wraps. -/
abbrev SizeT := BitVec 64

structure EventRouter (H : Type) where
  nextHandle : SizeT
  dispatchContainer : Map SizeT H

namespace EventRouter

variable {H EventT : Type}

/-- `event_router() = default`. -/
def fresh : EventRouter H := ⟨1, ∅⟩

/-- `call(event)`: the invocations, each a handler and the event it gets. -/
def call (r : EventRouter H) (event : EventT) : Multiset (H × EventT) :=
  if size r.dispatchContainer = 0 then 0
  else (values r.dispatchContainer).map fun handler => (handler, event)

/-- `attach(handler)`: the handle returned, and the router after it. -/
def attach (r : EventRouter H) (handler : H) : SizeT × EventRouter H :=
  let handle := r.nextHandle
  (handle, ⟨r.nextHandle + 1, emplace r.dispatchContainer handle handler⟩)

/-- `detach(handle)`: whether an entry was erased, and the router after it. -/
def detach (r : EventRouter H) (handle : SizeT) : Bool × EventRouter H :=
  if handle ∈ r.dispatchContainer then (true, ⟨r.nextHandle - 1, r.dispatchContainer.erase handle⟩)
  else (false, r)

/-- The early return on an empty container makes no difference. -/
theorem call_eq (r : EventRouter H) (event : EventT) :
    r.call event = (values r.dispatchContainer).map fun handler => (handler, event) := by
  unfold call
  split
  · rename_i h; rw [values_eq_zero h, Multiset.map_zero]
  · rfl

@[simp] theorem attach_fst (r : EventRouter H) (handler : H) :
    (r.attach handler).1 = r.nextHandle := rfl

@[simp] theorem attach_nextHandle (r : EventRouter H) (handler : H) :
    (r.attach handler).2.nextHandle = r.nextHandle + 1 := rfl

@[simp] theorem attach_dispatchContainer (r : EventRouter H) (handler : H) :
    (r.attach handler).2.dispatchContainer = emplace r.dispatchContainer r.nextHandle handler := rfl

theorem detach_of_mem {r : EventRouter H} {handle : SizeT} (h : handle ∈ r.dispatchContainer) :
    r.detach handle = (true, ⟨r.nextHandle - 1, r.dispatchContainer.erase handle⟩) := if_pos h

theorem detach_of_notMem {r : EventRouter H} {handle : SizeT} (h : handle ∉ r.dispatchContainer) :
    r.detach handle = (false, r) := if_neg h

/-! ## An `attach` that may throw -/

/-- How an `attach` ends. -/
inductive AttachOutcome where
  | returns
  /-- The handler cannot be copied into the call. -/
  | copyThrows
  /-- `emplace` throws, and `next_handle` has been incremented by then. -/
  | emplaceThrows
deriving DecidableEq

/-- `attach(handler)`: the handle, if it returns, and the router after it. -/
def tryAttach (r : EventRouter H) (handler : H) : AttachOutcome → Option SizeT × EventRouter H
  | .returns => (some (r.attach handler).1, (r.attach handler).2)
  | .copyThrows => (none, r)
  | .emplaceThrows => (none, { r with nextHandle := r.nextHandle + 1 })

/-- The container holds at most `max_size()` entries: `emplace` throws rather than add another. -/
def Possible (maxSize : SizeT) (r : EventRouter H) : AttachOutcome → Prop
  | .returns => r.nextHandle ∈ r.dispatchContainer ∨ size r.dispatchContainer < maxSize.toNat
  | .copyThrows => True
  | .emplaceThrows => True

instance (maxSize : SizeT) (r : EventRouter H) :
    (outcome : AttachOutcome) → Decidable (Possible maxSize r outcome)
  | .returns => inferInstanceAs (Decidable (_ ∨ _))
  | .copyThrows => isTrue trivial
  | .emplaceThrows => isTrue trivial

end EventRouter

/-! ## `event_router_RAII` -/

structure EventRouterRAII where
  /-- `size_t handle = -1` -/
  handle : SizeT := -1
deriving DecidableEq

namespace EventRouterRAII

open EventRouter

variable {H : Type}

/-- The constructor: an exception of `attach` is logged, and the object is constructed anyway. -/
def construct (r : EventRouter H) (handler : H) (outcome : AttachOutcome) :
    EventRouterRAII × EventRouter H :=
  let raii : EventRouterRAII := {}
  match r.tryAttach handler outcome with
  | (some handle, r) => ({ raii with handle := handle }, r)
  | (none, r) =>
    if raii.handle ≠ -1 then (raii, (r.detach raii.handle).2)
    else (raii, r)

/-- The destructor. -/
def destroy (raii : EventRouterRAII) (r : EventRouter H) : EventRouter H := (r.detach raii.handle).2

theorem construct_copyThrows (r : EventRouter H) (handler : H) :
    construct r handler .copyThrows = (⟨-1⟩, r) := rfl

/-- The handle is still -1 in the `catch` block, so the number taken is not given back. -/
theorem construct_emplaceThrows (r : EventRouter H) (handler : H) :
    construct r handler .emplaceThrows = (⟨-1⟩, { r with nextHandle := r.nextHandle + 1 }) := rfl

theorem construct_fails {r : EventRouter H} {handler : H} {outcome : AttachOutcome}
    (h : outcome ≠ .returns) : (construct r handler outcome).1.handle = -1 := by
  cases outcome with
  | returns => exact absurd rfl h
  | copyThrows => rfl
  | emplaceThrows => rfl

theorem destroy_of_notMem {raii : EventRouterRAII} {r : EventRouter H}
    (h : raii.handle ∉ r.dispatchContainer) : raii.destroy r = r := by
  unfold destroy
  rw [detach_of_notMem h]

end EventRouterRAII
end SeastarStarter
