import SeastarStarter.EventRouter
import SeastarStarter.Lib.Lts

/-!
# The handle counter over the runs of a router

| here | there |
| --- | --- |
| `EventRouter.step` | one call of `attach` or `detach`, from any client and with any argument |
| `Effect`           | what such a call can do to `next_handle` and `dispatch_container` |
| `Ledger`           | the router beside a count of the numbers taken and of the entries erased |

It is not true that the live handles are below `next_handle`: a detach lowers the counter below
handles that are still live. What every call preserves is a relation between the counter and the
*size* of the container (`Ledger.Inv`).
-/

namespace SeastarStarter

open UnorderedMap Lts

namespace EventRouter

variable {H : Type}

inductive Call (H : Type) where
  | attach (handler : H) (outcome : AttachOutcome)
  | detach (handle : SizeT)

/-- One call, on a router whose container holds at most `maxSize` entries. -/
def step (maxSize : SizeT) (r : EventRouter H) : Call H → Option (EventRouter H)
  | .attach handler outcome =>
    if Possible maxSize r outcome then some (r.tryAttach handler outcome).2 else none
  | .detach handle => some (r.detach handle).2

/-- The ways a call can go. -/
inductive Effect (maxSize : SizeT) (r : EventRouter H) : Call H → EventRouter H → Prop
  | stored (handler : H) (hnew : r.nextHandle ∉ r.dispatchContainer)
      (hroom : size r.dispatchContainer < maxSize.toNat) :
      Effect maxSize r (.attach handler .returns)
        ⟨r.nextHandle + 1, r.dispatchContainer.insert r.nextHandle handler⟩
  | collided (handler : H) (htaken : r.nextHandle ∈ r.dispatchContainer) :
      Effect maxSize r (.attach handler .returns) ⟨r.nextHandle + 1, r.dispatchContainer⟩
  | copyThrew (handler : H) : Effect maxSize r (.attach handler .copyThrows) r
  | emplaceThrew (handler : H) :
      Effect maxSize r (.attach handler .emplaceThrows) { r with nextHandle := r.nextHandle + 1 }
  | erased (handle : SizeT) (hlive : handle ∈ r.dispatchContainer) :
      Effect maxSize r (.detach handle) ⟨r.nextHandle - 1, r.dispatchContainer.erase handle⟩
  | ignored (handle : SizeT) (hdead : handle ∉ r.dispatchContainer) :
      Effect maxSize r (.detach handle) r

theorem effect_of_step {maxSize : SizeT} {r r' : EventRouter H} {call : Call H}
    (h : step maxSize r call = some r') : Effect maxSize r call r' := by
  cases call with
  | attach handler outcome =>
    simp only [step] at h
    split at h
    · rename_i hpossible
      cases h
      cases outcome with
      | returns =>
        by_cases hmem : r.nextHandle ∈ r.dispatchContainer
        · have heq : (r.attach handler).2 = ⟨r.nextHandle + 1, r.dispatchContainer⟩ :=
            congrArg (EventRouter.mk _) (emplace_of_mem handler hmem)
          exact heq ▸ .collided handler hmem
        · have heq : (r.attach handler).2 =
              ⟨r.nextHandle + 1, r.dispatchContainer.insert r.nextHandle handler⟩ :=
            congrArg (EventRouter.mk _) (emplace_of_notMem handler hmem)
          exact heq ▸ .stored handler hmem (hpossible.resolve_left hmem)
      | copyThrows => exact .copyThrew handler
      | emplaceThrows => exact .emplaceThrew handler
    · cases h
  | detach handle =>
    cases h
    by_cases hmem : handle ∈ r.dispatchContainer
    · rw [detach_of_mem hmem]
      exact .erased handle hmem
    · rw [detach_of_notMem hmem]
      exact .ignored handle hmem

/-! ## The counter counts -/

structure Ledger (H : Type) where
  router : EventRouter H
  /-- The attaches so far that took a number. -/
  attaches : Nat
  /-- The detaches so far that erased an entry. -/
  detaches : Nat

namespace Ledger

def fresh : Ledger H := ⟨.fresh, 0, 0⟩

def attachesOf : Call H → Nat
  | .attach _ .copyThrows => 0
  | .attach _ _ => 1
  | .detach _ => 0

def detachesOf (r : EventRouter H) : Call H → Nat
  | .attach _ _ => 0
  | .detach handle => if (r.detach handle).1 then 1 else 0

def step (maxSize : SizeT) (s : Ledger H) (call : Call H) : Option (Ledger H) :=
  (s.router.step maxSize call).map fun r =>
    ⟨r, s.attaches + attachesOf call, s.detaches + detachesOf s.router call⟩

/-- The numbers taken and not given back fit in a `size_t` that is not -1. -/
def Within (s : Ledger H) : Prop := s.attaches ≤ s.detaches + (2 ^ 64 - 2)

structure Inv (s : Ledger H) : Prop where
  counted : s.router.nextHandle.toNat + s.detaches = s.attaches + 1
  size_lt : size s.router.dispatchContainer < s.router.nextHandle.toNat
  keys : ∀ handle ∈ s.router.dispatchContainer, 1 ≤ handle.toNat ∧ handle.toNat < 2 ^ 64 - 1

theorem inv_fresh : Inv (fresh : Ledger H) :=
  ⟨rfl, Nat.one_pos, fun _ h => absurd h Finmap.notMem_empty⟩

/-- A number that may still be taken is followed by another one. -/
theorem toNat_succ {n : SizeT} (h : n.toNat < 2 ^ 64 - 1) : (n + 1).toNat = n.toNat + 1 := by
  bv_omega

theorem toNat_pred {n : SizeT} (h : 1 ≤ n.toNat) : (n - 1).toNat = n.toNat - 1 := by
  bv_omega

/-- An attach that takes a number, whether or not it stores an entry under it. -/
theorem Inv.taken {s : Ledger H} {container : Map SizeT H} (hI : Inv s)
    (hwithin : s.attaches + 1 ≤ s.detaches + (2 ^ 64 - 2))
    (hsize : size container ≤ size s.router.dispatchContainer + 1)
    (hkeys : ∀ handle ∈ container,
      handle = s.router.nextHandle ∨ handle ∈ s.router.dispatchContainer) :
    Inv ⟨⟨s.router.nextHandle + 1, container⟩, s.attaches + 1, s.detaches⟩ := by
  have hcounted := hI.counted
  have hlt := hI.size_lt
  have hsucc : (s.router.nextHandle + 1).toNat = s.router.nextHandle.toNat + 1 :=
    toNat_succ (by omega)
  refine ⟨?_, ?_, fun handle hmem => ?_⟩
  · simp only [hsucc]
    omega
  · simp only [hsucc]
    omega
  · rcases hkeys handle hmem with rfl | hold
    · omega
    · exact hI.keys handle hold

/-- A detach that erases an entry. -/
theorem Inv.erased {s : Ledger H} {handle : SizeT} (hI : Inv s)
    (hlive : handle ∈ s.router.dispatchContainer) :
    Inv ⟨⟨s.router.nextHandle - 1, s.router.dispatchContainer.erase handle⟩, s.attaches,
      s.detaches + 1⟩ := by
  obtain ⟨handler, hlook⟩ := Finmap.mem_iff.1 hlive
  have hcounted := hI.counted
  -- the entry itself accounts for one number above 1
  have hlt := hI.size_lt
  rw [size_eq_succ_erase hlook] at hlt
  have hpred : (s.router.nextHandle - 1).toNat = s.router.nextHandle.toNat - 1 :=
    toNat_pred (by omega)
  refine ⟨?_, ?_, fun other hother => hI.keys other (Finmap.mem_erase.1 hother).2⟩
  · simp only [hpred]
    omega
  · simp only [hpred]
    omega

theorem Inv.step {maxSize : SizeT} {s s' : Ledger H} {call : Call H} (hI : Inv s)
    (hwithin : Within s') (h : step maxSize s call = some s') : Inv s' := by
  unfold Ledger.step at h
  obtain ⟨r, hr, rfl⟩ := Option.map_eq_some_iff.1 h
  have heffect := effect_of_step hr
  cases heffect with
  | stored handler hnew hroom =>
    refine hI.taken hwithin ?_ fun handle hmem => Finmap.mem_insert.1 hmem
    rw [size_insert_of_notMem _ hnew]
  | collided handler htaken => exact hI.taken hwithin (Nat.le_succ _) fun _ hmem => Or.inr hmem
  | copyThrew handler => exact hI
  | emplaceThrew handler => exact hI.taken hwithin (Nat.le_succ _) fun _ hmem => Or.inr hmem
  | erased handle hlive =>
    have hone : detachesOf s.router (.detach handle) = 1 := by
      simp only [detachesOf, detach_of_mem hlive, if_true]
    rw [hone]
    exact hI.erased hlive
  | ignored handle hdead =>
    have hzero : detachesOf s.router (.detach handle) = 0 := by
      simp only [detachesOf, detach_of_notMem hdead, Bool.false_eq_true, if_false]
    rw [hzero]
    exact hI

/-- What a client may rely on, whatever the other clients did. -/
structure Sound (s : Ledger H) : Prop where
  /-- The counter is the number it would be in unbounded arithmetic. -/
  counted : s.router.nextHandle.toNat + s.detaches = s.attaches + 1
  size_lt : size s.router.dispatchContainer < s.router.nextHandle.toNat
  decrement : ∀ handle, (s.router.detach handle).1 = true →
    (s.router.detach handle).2.nextHandle.toNat + 1 = s.router.nextHandle.toNat ∧
      1 ≤ (s.router.detach handle).2.nextHandle.toNat
  zero_notMem : 0 ∉ s.router.dispatchContainer
  sentinel_notMem : -1 ∉ s.router.dispatchContainer
  /-- Destroying an object whose attach failed, whenever that was. -/
  destroy_failed : ∀ (r : EventRouter H) (handler : H) (outcome : AttachOutcome),
    outcome ≠ .returns →
      (EventRouterRAII.construct r handler outcome).1.destroy s.router = s.router

theorem Inv.sound {s : Ledger H} (hI : Inv s) : Sound s := by
  have hsentinel : (-1 : SizeT) ∉ s.router.dispatchContainer := fun h =>
    absurd (hI.keys _ h).2 (by decide)
  refine ⟨hI.counted, hI.size_lt, fun handle herased => ?_, fun h => ?_, hsentinel,
    fun r handler outcome hfails => ?_⟩
  · have hlive : handle ∈ s.router.dispatchContainer := by
      by_contra hdead
      rw [detach_of_notMem hdead] at herased
      cases herased
    have hafter := (hI.erased hlive).counted
    have hlt := (hI.erased hlive).size_lt
    have hcounted := hI.counted
    simp only at hafter hlt
    rw [detach_of_mem hlive]
    simp only
    omega
  · exact absurd (hI.keys _ h).1 (by decide)
  · apply EventRouterRAII.destroy_of_notMem
    rw [EventRouterRAII.construct_fails hfails]
    exact hsentinel

/-- **The counter never wraps.** In every run of attaches, throwing ones included, and of detaches
of any number, in which at most 2^64 - 2 numbers are taken and not given back: the counter stays
exact and above the size of the container, and neither 0 nor the -1 of an object whose attach
failed is ever a live handle. -/
theorem always_sound (maxSize : SizeT) (calls : List (Call H))
    (h : Always (step maxSize) Within fresh calls) : Always (step maxSize) Sound fresh calls := by
  have hinv : Always (step maxSize) Inv fresh calls :=
    always_of_along (fun _ _ s' hI hnext hs => Inv.step hI (hnext s' hs) hs) inv_fresh h.along_next
  exact hinv.mono fun _ hI => hI.sound

theorem attaches_le {maxSize : SizeT} {s s' : Ledger H} {calls : List (Call H)}
    (h : exec (step maxSize) s calls = some s') : s'.attaches ≤ s.attaches + calls.length := by
  induction calls generalizing s with
  | nil => cases h; simp
  | cons call calls ih =>
    obtain ⟨m, hm, hrest⟩ := exec_cons_some.1 h
    obtain ⟨r, -, rfl⟩ := Option.map_eq_some_iff.1 hm
    have hcall : attachesOf call ≤ 1 := by
      unfold attachesOf
      split <;> omega
    have hle := ih hrest
    simp only [List.length_cons] at hle ⊢
    omega

/-- It takes more than 2^64 - 2 calls to leave the bound. -/
theorem within_of_length {maxSize : SizeT} {calls : List (Call H)}
    (h : calls.length ≤ 2 ^ 64 - 2) : Always (step maxSize) Within fresh calls := by
  intro pre post s heq hpre
  have hle := attaches_le hpre
  have hlen : calls.length = pre.length + post.length := by rw [heq, List.length_append]
  simp only [fresh] at hle
  unfold Within
  omega

/-- An attach that throws, a number never issued, and the first handle, twice. -/
theorem sound_stale_detaches :
    Always (step 8) Sound (fresh : Ledger Unit)
      [.attach () .returns, .attach () .emplaceThrows, .detach 9, .detach 1, .detach 1] :=
  always_sound 8 _ (within_of_length (by decide))

end Ledger
end EventRouter
end SeastarStarter
