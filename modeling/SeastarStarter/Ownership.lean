import SeastarStarter.FailedAttach

/-!
# Whose handlers the router holds

Every `event_router_RAII` object that is constructed gives the router a handler of its own; `sign`
says whose a handler is. A number may be taken twice, because `detach` lowers the counter: then
`emplace` keeps the handler that is there, and the destruction of either object erases it. Still no
handler outlives its object (`handlers_of_living_objects`), and `held_iff` says which living
objects are still heard.

| here | EVENTS.h |
|---|---|
| `Owned` | an entry under handle `k` is that of a living object whose `handle` is `k` |
| `Held`  | the object's own handler is in `dispatch_container` |
| `Kept`  | its number was free when it was taken (42-43), and no destructor (90-94) has given it back since |
-/

namespace SeastarStarter
namespace Scopes

open UnorderedMap Lts EventRouter

variable {Name H : Type} [DecidableEq Name] {maxSize : SizeT} {fate : Name → AttachOutcome}
  {sign : H → Name} {s m : Scopes Name H}

/-- Every object attaches a handler of its own. -/
def Signed (sign : H → Name) (ops : List (ScopeOp Name H)) : Prop :=
  ∀ name handler, .construct name handler ∈ ops → sign handler = name

def Owned (sign : H → Name) (s : Scopes Name H) : Prop :=
  ∀ k handler, s.router.dispatchContainer.lookup k = some handler →
    s.status (sign handler) = .alive ⟨k⟩

/-- A constructor adds its handler under the next number, if this is free and `attach` returns. -/
theorem lookup_construct (r : EventRouter H) (handler : H) (outcome : AttachOutcome) (k : SizeT) :
    (EventRouterRAII.construct r handler outcome).2.dispatchContainer.lookup k =
      if outcome = .returns ∧ k = r.nextHandle ∧ r.nextHandle ∉ r.dispatchContainer then some handler
      else r.dispatchContainer.lookup k := by
  cases outcome with
  | returns =>
    show (emplace r.dispatchContainer r.nextHandle handler).lookup k = _
    by_cases hmem : r.nextHandle ∈ r.dispatchContainer
    · simp [emplace_of_mem handler hmem, hmem]
    · by_cases hk : k = r.nextHandle
      · subst hk
        simp [emplace_of_notMem handler hmem, hmem]
      · simp [emplace_of_notMem handler hmem, hk, Finmap.lookup_insert_of_ne]
  | copyThrows => simp [EventRouterRAII.construct_copyThrows]
  | emplaceThrows => simp [EventRouterRAII.construct_emplaceThrows]

theorem handle_construct (r : EventRouter H) (handler : H) (outcome : AttachOutcome) :
    (EventRouterRAII.construct r handler outcome).1 =
      ⟨if outcome = .returns then r.nextHandle else -1⟩ := by
  cases outcome <;> rfl

/-- A destructor erases what is under its handle, whoever put it there. -/
theorem lookup_destroy (raii : EventRouterRAII) (r : EventRouter H) (k : SizeT) :
    (raii.destroy r).dispatchContainer.lookup k =
      if k = raii.handle then none else r.dispatchContainer.lookup k := by
  unfold EventRouterRAII.destroy
  by_cases hmem : raii.handle ∈ r.dispatchContainer
  · rw [detach_of_mem hmem]
    by_cases hk : k = raii.handle
    · subst hk
      simp [Finmap.lookup_erase]
    · simp [hk, Finmap.lookup_erase_ne]
  · rw [detach_of_notMem hmem]
    by_cases hk : k = raii.handle
    · subst hk
      simp [Finmap.lookup_eq_none.2 hmem]
    · simp [hk]

omit [DecidableEq Name] in
theorem owned_fresh : Owned sign (fresh : Scopes Name H) := by
  intro k handler h
  simp [fresh, EventRouter.fresh] at h

theorem Owned.step (h : Owned sign s) {op : ScopeOp Name H}
    (hsigned : ∀ name handler, op = .construct name handler → sign handler = name)
    (hstep : step maxSize fate s op = some m) : Owned sign m := by
  intro k handler hk
  cases op with
  | construct name own =>
    obtain ⟨hunborn, -, rfl⟩ := step_construct hstep
    simp only [lookup_construct] at hk
    split_ifs at hk with hnew
    · obtain rfl := Option.some.inj hk
      rw [hsigned name own rfl]
      simp [handle_construct, hnew]
    · have halive := h k handler hk
      have hne : sign handler ≠ name := fun heq => by simp [heq, hunborn] at halive
      simp only [Function.update_of_ne hne]
      exact halive
  | destroy name =>
    obtain ⟨raii, halive, rfl⟩ := step_destroy hstep
    simp only [lookup_destroy] at hk
    split_ifs at hk with hother
    have howner := h k handler hk
    have hne : sign handler ≠ name := by
      rintro rfl
      rw [halive, ScopeStatus.alive.injEq] at howner
      exact hother (by rw [howner])
    simp only [Function.update_of_ne hne]
    exact howner

theorem owned_of_exec {ops : List (ScopeOp Name H)} (hsigned : Signed sign ops)
    (hex : exec (step maxSize fate) fresh ops = some s) : Owned sign s :=
  exec_along (C := fun _ op => ∀ name handler, op = .construct name handler → sign handler = name)
    (fun _ _ _ h hop hstep => h.step hop hstep) owned_fresh
    (along_of_forall_mem fun op hop name handler heq => hsigned name handler (by rwa [heq] at hop))
    hex

/-- **No handler outlives its object.** After every run of constructions, failed or not, and of
destructions, an event goes to handlers of living objects only, to at most one of each; and once
no object is alive, the router is empty. -/
theorem handlers_of_living_objects (ops : List (ScopeOp Name H)) (hsigned : Signed sign ops)
    (hex : exec (step maxSize fate) fresh ops = some s) {EventT : Type} (event : EventT) :
    (∀ invocation ∈ s.router.call event, ∃ raii, s.status (sign invocation.1) = .alive raii) ∧
    ((s.router.call event).map fun invocation => sign invocation.1).Nodup ∧
    ((∀ name raii, s.status name ≠ .alive raii) → s.router.dispatchContainer = ∅) := by
  have howned := owned_of_exec hsigned hex
  have hentry : ∀ entry ∈ s.router.dispatchContainer.entries,
      s.status (sign entry.2) = .alive ⟨entry.1⟩ := fun entry hentry =>
    howned entry.1 entry.2 (Finmap.lookup_eq_some_iff.2 hentry)
  refine ⟨fun invocation hinvocation => ?_, ?_, fun hnone => ?_⟩
  · rw [call_eq] at hinvocation
    obtain ⟨handler, hvalue, rfl⟩ := Multiset.mem_map.1 hinvocation
    obtain ⟨entry, hmem, rfl⟩ := Multiset.mem_map.1 hvalue
    exact ⟨_, hentry entry hmem⟩
  · -- two entries of one object would have its one handle as their key
    rw [call_eq, values, Multiset.map_map, Multiset.map_map]
    refine Multiset.Nodup.map_on ?_ s.router.dispatchContainer.nodup_entries
    rintro ⟨k, handler⟩ hmem ⟨k', handler'⟩ hmem' (heq : sign handler = sign handler')
    have halive := hentry _ hmem
    have halive' := hentry _ hmem'
    rw [← heq, halive, ScopeStatus.alive.injEq, EventRouterRAII.mk.injEq] at halive'
    obtain rfl : k = k' := halive'
    have hlookup := Finmap.lookup_eq_some_iff.2 hmem
    rw [Finmap.lookup_eq_some_iff.2 hmem', Option.some.injEq] at hlookup
    rw [hlookup]
  · refine Finmap.ext_lookup fun k => ?_
    cases hk : s.router.dispatchContainer.lookup k with
    | none => simp
    | some handler => exact absurd (howned k handler hk) (hnone _ _)

/-! ## Who is still heard -/

/-- The handler of `name` is in the container. -/
def Held (sign : H → Name) (s : Scopes Name H) (name : Name) : Prop :=
  ∃ k handler, s.router.dispatchContainer.lookup k = some handler ∧ sign handler = name

/-- The number that `name` took was free, and no other object with this number has been destroyed
since. -/
def Kept (maxSize : SizeT) (fate : Name → AttachOutcome) (ops : List (ScopeOp Name H))
    (name : Name) : Prop :=
  ∃ pre handler post m, ops = pre ++ .construct name handler :: post ∧
    exec (step maxSize fate) fresh pre = some m ∧ fate name = .returns ∧
    m.router.nextHandle ∉ m.router.dispatchContainer ∧
    ∀ mid other rest k raii, post = mid ++ .destroy other :: rest →
      exec (step maxSize fate) fresh (pre ++ .construct name handler :: mid) = some k →
      k.status other = .alive raii → raii.handle ≠ m.router.nextHandle

/-- The handle of a living object is the number it took. -/
def Numbered (maxSize : SizeT) (fate : Name → AttachOutcome) (ops : List (ScopeOp Name H))
    (s : Scopes Name H) : Prop :=
  ∀ pre name handler post m raii, ops = pre ++ .construct name handler :: post →
    exec (step maxSize fate) fresh pre = some m → s.status name = .alive raii →
    raii.handle = if fate name = .returns then m.router.nextHandle else -1

/-- An object that has been constructed is not unborn any more. -/
def Born (ops : List (ScopeOp Name H)) (s : Scopes Name H) : Prop :=
  ∀ name handler, .construct name handler ∈ ops → s.status name ≠ .unborn

theorem born_of_exec {ops : List (ScopeOp Name H)}
    (hex : exec (step maxSize fate) fresh ops = some s) : Born ops s := by
  refine exec_history (I := Born) (fun _ _ h => by cases h) ?_ hex
  intro pre op s m _ ih hstep name handler hmem
  have hold : (∃ handler, .construct name handler ∈ pre) → m.status name ≠ .unborn := by
    rintro ⟨handler, hmem⟩
    have hborn := ih name handler hmem
    cases op with
    | construct other own =>
      obtain ⟨hunborn, -, rfl⟩ := step_construct hstep
      have hne : name ≠ other := fun heq => hborn (heq ▸ hunborn)
      simpa [hne] using hborn
    | destroy other =>
      obtain ⟨raii, -, rfl⟩ := step_destroy hstep
      by_cases hne : name = other
      · simp [hne]
      · simpa [hne] using hborn
  rcases List.mem_append.1 hmem with hmem | hmem
  · exact hold ⟨handler, hmem⟩
  · obtain rfl := List.mem_singleton.1 hmem
    obtain ⟨-, -, rfl⟩ := step_construct hstep
    simp

theorem numbered_of_exec {ops : List (ScopeOp Name H)}
    (hex : exec (step maxSize fate) fresh ops = some s) : Numbered maxSize fate ops s := by
  refine exec_history (I := Numbered maxSize fate) (fun pre name handler post m raii h => ?_) ?_ hex
  · simp at h
  intro ops op s s' hops ih hstep pre name handler post m raii hsplit hm halive
  rcases snoc_eq_append_cons.1 hsplit with ⟨-, rfl, rfl⟩ | ⟨post', -, hold⟩
  · obtain rfl := Option.some.inj (hops.symm.trans hm)
    obtain ⟨-, -, rfl⟩ := step_construct hstep
    simp only [Function.update_self, ScopeStatus.alive.injEq] at halive
    rw [← halive, handle_construct]
  · have hborn : s.status name ≠ .unborn :=
      born_of_exec hops name handler (by simp [hold])
    refine ih pre name handler post' m raii hold hm ?_
    cases op with
    | construct other own =>
      obtain ⟨hunborn, -, rfl⟩ := step_construct hstep
      have hne : name ≠ other := fun heq => hborn (heq ▸ hunborn)
      simpa [hne] using halive
    | destroy other =>
      obtain ⟨_, -, rfl⟩ := step_destroy hstep
      by_cases hne : name = other
      · simp [hne] at halive
      · simpa [hne] using halive

/-- Another object is constructed: that takes no handler away. -/
theorem kept_snoc_construct {ops : List (ScopeOp Name H)} {name other : Name} {handler : H}
    (hne : other ≠ name) :
    Kept maxSize fate (ops ++ [.construct other handler]) name ↔ Kept maxSize fate ops name := by
  constructor
  · rintro ⟨pre, own, post, m, hsplit, hm, hfate, hfree, hkept⟩
    rcases snoc_eq_append_cons.1 hsplit with ⟨-, -, heq⟩ | ⟨post', rfl, hold⟩
    · exact absurd (ScopeOp.construct.inj heq).1 hne
    · refine ⟨pre, own, post', m, hold, hm, hfate, hfree, fun mid dead rest k raii hpost => ?_⟩
      exact hkept mid dead (rest ++ [.construct other handler]) k raii (by simp [hpost])
  · rintro ⟨pre, own, post, m, rfl, hm, hfate, hfree, hkept⟩
    refine ⟨pre, own, post ++ [.construct other handler], m, by simp, hm, hfate, hfree,
      fun mid dead rest k raii hpost => ?_⟩
    rcases snoc_eq_append_cons.1 hpost with ⟨-, -, heq⟩ | ⟨rest', -, hold⟩
    · cases heq
    · exact hkept mid dead rest' k raii hold

/-- An object is destroyed: that takes the handler of `name` away if they have the same handle. -/
theorem kept_snoc_destroy {ops : List (ScopeOp Name H)} {name other : Name}
    {raii own : EventRouterRAII} (hex : exec (step maxSize fate) fresh ops = some s)
    (halive : s.status name = .alive raii) (hother : s.status other = .alive own) :
    Kept maxSize fate (ops ++ [.destroy other]) name ↔
      Kept maxSize fate ops name ∧ own.handle ≠ raii.handle := by
  have hnumber : ∀ pre handler post m, ops = pre ++ .construct name handler :: post →
      exec (step maxSize fate) fresh pre = some m → fate name = .returns →
      raii.handle = m.router.nextHandle := by
    intro pre handler post m hsplit hm hfate
    have h := numbered_of_exec hex pre name handler post m raii hsplit hm halive
    rwa [if_pos hfate] at h
  constructor
  · rintro ⟨pre, handler, post, m, hsplit, hm, hfate, hfree, hkept⟩
    rcases snoc_eq_append_cons.1 hsplit with ⟨-, -, heq⟩ | ⟨post', rfl, rfl⟩
    · cases heq
    · refine ⟨⟨pre, handler, post', m, rfl, hm, hfate, hfree, fun mid dead rest k raii' hpost => ?_⟩, ?_⟩
      · exact hkept mid dead (rest ++ [.destroy other]) k raii' (by simp [hpost])
      · rw [hnumber pre handler post' m rfl hm hfate]
        exact hkept post' other [] s own rfl hex hother
  · rintro ⟨⟨pre, handler, post, m, rfl, hm, hfate, hfree, hkept⟩, hne⟩
    refine ⟨pre, handler, post ++ [.destroy other], m, by simp, hm, hfate, hfree,
      fun mid dead rest k raii' hpost hk hdead => ?_⟩
    rcases snoc_eq_append_cons.1 hpost with ⟨-, rfl, heq⟩ | ⟨rest', -, hold⟩
    · obtain rfl := ScopeOp.destroy.inj heq
      obtain rfl := Option.some.inj (hex.symm.trans hk)
      rw [hother, ScopeStatus.alive.injEq] at hdead
      rw [← hnumber pre handler post m rfl hm hfate, ← hdead]
      exact hne
    · exact hkept mid dead rest' k raii' hold hk hdead

/-- Whose handler is there after a construction. -/
theorem held_construct {other name : Name} {handler : H} (hsign : sign handler = other) :
    Held sign ⟨(EventRouterRAII.construct s.router handler (fate other)).2,
        Function.update s.status other
          (.alive (EventRouterRAII.construct s.router handler (fate other)).1)⟩ name ↔
      Held sign s name ∨ (other = name ∧ fate other = .returns ∧
        s.router.nextHandle ∉ s.router.dispatchContainer) := by
  simp only [Held, lookup_construct]
  constructor
  · rintro ⟨k, own, hk, hname⟩
    split_ifs at hk with hnew
    · obtain rfl := Option.some.inj hk
      exact Or.inr ⟨hsign.symm.trans hname, hnew.1, hnew.2.2⟩
    · exact Or.inl ⟨k, own, hk, hname⟩
  · rintro (⟨k, own, hk, hname⟩ | ⟨rfl, hreturns, hfree⟩)
    · refine ⟨k, own, ?_, hname⟩
      rw [if_neg]
      · exact hk
      · rintro ⟨-, rfl, hfree⟩
        exact hfree (Finmap.mem_of_lookup_eq_some hk)
    · exact ⟨s.router.nextHandle, handler, by simp [hreturns, hfree], hsign⟩

/-- And after a destruction, of the objects that live on. -/
theorem held_destroy (howned : Owned sign s) {other name : Name} {raii own : EventRouterRAII}
    (halive : s.status name = .alive raii) (status : Name → ScopeStatus) :
    Held sign ⟨own.destroy s.router, Function.update status other (.destroyed own)⟩ name ↔
      Held sign s name ∧ own.handle ≠ raii.handle := by
  have hkey : ∀ k handler, s.router.dispatchContainer.lookup k = some handler →
      sign handler = name → k = raii.handle := by
    rintro k handler hk rfl
    have h := howned k handler hk
    rw [halive, ScopeStatus.alive.injEq] at h
    rw [h]
  simp only [Held, lookup_destroy]
  constructor
  · rintro ⟨k, handler, hk, hname⟩
    split_ifs at hk with hother
    refine ⟨⟨k, handler, hk, hname⟩, fun heq => hother ?_⟩
    rw [heq, hkey k handler hk hname]
  · rintro ⟨⟨k, handler, hk, hname⟩, hne⟩
    refine ⟨k, handler, ?_, hname⟩
    rw [if_neg]
    · exact hk
    · rw [hkey k handler hk hname]
      exact hne.symm

/-- The last construction decides for its own object. -/
theorem kept_snoc_self {ops : List (ScopeOp Name H)} {name : Name} {handler : H}
    (hex : exec (step maxSize fate) fresh ops = some s) (hunborn : s.status name = .unborn) :
    Kept maxSize fate (ops ++ [.construct name handler]) name ↔
      fate name = .returns ∧ s.router.nextHandle ∉ s.router.dispatchContainer := by
  constructor
  · rintro ⟨pre, own, post, m, hsplit, hm, hfate, hfree, -⟩
    rcases snoc_eq_append_cons.1 hsplit with ⟨-, rfl, -⟩ | ⟨post', -, hold⟩
    · obtain rfl := Option.some.inj (hex.symm.trans hm)
      exact ⟨hfate, hfree⟩
    · exact absurd hunborn (born_of_exec hex name own (by simp [hold]))
  · rintro ⟨hfate, hfree⟩
    exact ⟨ops, handler, [], s, rfl, hex, hfate, hfree, fun mid other rest k raii h => by simp at h⟩

/-- **Which living objects are heard.** After every run, the handler of a living object is in the
container exactly when its number was free when it took it and no other object with the same
number has been destroyed since. -/
theorem held_iff (ops : List (ScopeOp Name H)) (hsigned : Signed sign ops)
    (hex : exec (step maxSize fate) fresh ops = some s) {name : Name} {raii : EventRouterRAII}
    (halive : s.status name = .alive raii) : Held sign s name ↔ Kept maxSize fate ops name := by
  refine exec_history (I := fun ops s => Signed sign ops → ∀ name raii, s.status name = .alive raii →
    (Held sign s name ↔ Kept maxSize fate ops name)) (fun _ _ _ h => by cases h) ?_ hex hsigned
    name raii halive
  intro ops op s s' hops ih hstep hsigned name raii halive
  have hbefore : Signed sign ops := fun name handler hmem =>
    hsigned name handler (List.mem_append_left _ hmem)
  have howned := owned_of_exec hbefore hops
  cases op with
  | construct other handler =>
    have hsign : sign handler = other := hsigned other handler (by simp)
    obtain ⟨hunborn, -, rfl⟩ := step_construct hstep
    rw [held_construct hsign]
    by_cases hne : other = name
    · subst hne
      have hnot : ¬ Held sign s other := by
        rintro ⟨k, own, hk, hown⟩
        have h := howned k own hk
        rw [hown, hunborn] at h
        cases h
      rw [kept_snoc_self hops hunborn]
      simp [hnot]
    · have hold : s.status name = .alive raii := by simpa [Ne.symm hne] using halive
      rw [kept_snoc_construct hne, ← ih hbefore name raii hold]
      simp [hne]
  | destroy other =>
    obtain ⟨own, hother, rfl⟩ := step_destroy hstep
    have hne : name ≠ other := by
      rintro rfl
      simp at halive
    have hold : s.status name = .alive raii := by simpa [hne] using halive
    rw [held_destroy howned hold, kept_snoc_destroy hops hold hother, ih hbefore name raii hold]

/-- Three objects: the first is destroyed while the second lives, so the third takes the number of
the second. -/
def reused : List (ScopeOp (Fin 3) (Fin 3)) :=
  [.construct 0 0, .construct 1 1, .destroy 0, .construct 2 2]

theorem signed_reused : Signed id reused := by
  intro name handler h
  simp only [reused, List.mem_cons, ScopeOp.construct.injEq, reduceCtorEq, List.not_mem_nil,
    or_false, false_or] at h
  rcases h with ⟨rfl, rfl⟩ | ⟨rfl, rfl⟩ | ⟨rfl, rfl⟩ <;> rfl

theorem handlers_of_living_objects_reused : ∃ s,
    exec (step 8 fun _ => .returns) fresh reused = some s ∧
      ∀ invocation ∈ s.router.call (), ∃ raii, s.status (id invocation.1) = .alive raii := by
  obtain ⟨s, hex⟩ := Option.isSome_iff_exists.1
    (show (exec (step 8 fun _ => .returns) fresh reused).isSome = true by decide +kernel)
  exact ⟨s, hex, (handlers_of_living_objects reused signed_reused hex ()).1⟩

theorem held_iff_reused : ∃ s, exec (step 8 fun _ => .returns) fresh reused = some s ∧
    (Held id s 2 ↔ Kept 8 (fun _ => .returns) reused 2) := by
  obtain ⟨s, hex, halive⟩ := Option.map_eq_some_iff.1
    (show (exec (step 8 fun _ => .returns) fresh reused).map (fun s => s.status 2) =
      some (.alive ⟨2⟩) by decide +kernel)
  exact ⟨s, hex, held_iff reused signed_reused hex halive⟩

end Scopes
end SeastarStarter
