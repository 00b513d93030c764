import SlotHandles.Proofs.Factories

/-!
# Attempts at one's own slot

While a value is built or destroyed its slot is neither empty nor occupied.  A constructor or destructor that tries to
place another value there is refused, hears the reason, and nothing else comes of it.  So a run with attempts ends as
the run without them (`EndsAlike`): every control block, every other value and every handle are the same, and the
traces differ by the answers alone (`attempts_go_unnoticed`).
-/

namespace SlotHandles

open World

variable {w w' u u' : World} {s : SlotId} {v : Value} {o : Origin} {h : Handle} {elem : Ty} {family : Family}
  {es es' : List Event}

/-! ### Answers -/

/-- The reason that the event reports to an attempt. -/
def Event.answer? : Event → Option ErrorCode
  | .refused e => some e
  | _ => none

/-- The answers that were heard, in order. -/
def answers (es : List Event) : List ErrorCode := es.filterMap Event.answer?

/-- All that happened besides the answers. -/
def unanswered (es : List Event) : List Event := es.filter (·.answer?.isNone)

/-- Nobody is answered. -/
def Uncalled (es : List Event) : Prop := ∀ e ∈ es, e.answer? = none

theorem unanswered_append (es es' : List Event) : unanswered (es ++ es') = unanswered es ++ unanswered es' :=
  List.filter_append ..

theorem unanswered_refused (codes : List ErrorCode) : unanswered (codes.map .refused) = [] := by
  unfold unanswered
  rw [List.filter_eq_nil_iff]
  intro e he
  obtain ⟨code, -, rfl⟩ := List.mem_map.mp he
  simp [Event.answer?]

theorem answers_append (es es' : List Event) : answers (es ++ es') = answers es ++ answers es' :=
  List.filterMap_append

theorem answers_refused (codes : List ErrorCode) : answers (codes.map .refused) = codes := by
  unfold answers
  rw [List.filterMap_map]
  exact List.filterMap_some

theorem uncalled_nil : Uncalled [] := fun _ he => absurd he List.not_mem_nil

theorem uncalled_single {e : Event} (he : e.answer? = none) : Uncalled [e] := by
  intro e' he'
  rwa [List.mem_singleton.mp he']

theorem Uncalled.append (h : Uncalled es) (h' : Uncalled es') : Uncalled (es ++ es') := by
  intro e he
  rcases List.mem_append.mp he with he | he
  · exact h e he
  · exact h' e he

theorem Uncalled.answers_eq (h : Uncalled es) : answers es = [] :=
  List.filterMap_eq_nil_iff.mpr h

/-- Answers among announcements. -/
theorem answers_amid (h : Uncalled es) (codes : List ErrorCode) (h' : Uncalled es') :
    answers (es ++ codes.map .refused ++ es') = codes := by
  rw [answers_append, answers_append, h.answers_eq, h'.answers_eq, answers_refused, List.append_nil, List.nil_append]

theorem Begins.uncalled (h : Begins es) : Uncalled es := by
  intro e he
  have hb := h e he
  cases e <;> first | rfl | cases hb

theorem uncalled_unwinding (v : Value) : Uncalled v.unwinding := by
  cases v with
  | picky t n => exact uncalled_single rfl
  | _ => exact uncalled_nil

theorem uncalled_parting (v : Value) : Uncalled v.parting := by
  cases v with
  | collection item items =>
    cases item with
    | tracked =>
      intro e he
      obtain ⟨n, -, rfl⟩ := List.mem_map.mp he
      rfl
    | int | constInt | u8 => exact uncalled_nil
  | derived t b | deep t b => exact (uncalled_single rfl).append (uncalled_single (e := .farewell "Base" b.toInt64) rfl)
  | both l r => exact (uncalled_single rfl).append (uncalled_single (e := .farewell "Left" l) rfl)
  | tracked | square | picky | base | diff | left | right | node | snode => exact uncalled_single rfl
  | _ => exact uncalled_nil

theorem uncalled_lastWords (c : ControlBlock) (v : Value) : Uncalled (v.lastWords c) := by
  unfold Value.lastWords
  split
  · exact uncalled_single rfl
  · exact uncalled_parting v

theorem Transfer.uncalled_construction {t : Transfer} (ht : Uncalled t.events) (byCopy : Bool) :
    Uncalled (t.construction byCopy).events := by
  unfold construction
  split
  · exact ht.append (uncalled_unwinding _)
  · exact ht

/-- A construction whose attempts are left out hears no answers. -/
theorem Origin.uncalled_construction (o : Origin) (c : ControlBlock) : Uncalled (o.construction c).events := by
  cases o with
  | arguments seed =>
    have harrival := (begins_arrival seed.value).uncalled
    unfold construction Value.construction
    dsimp only
    split
    · exact harrival.append (uncalled_unwinding _)
    · split
      · rename_i id _ _ _
        have hbuilt : Uncalled [.probeBuilt id c.summary] := uncalled_single rfl
        exact harrival.append hbuilt
      · exact harrival
  | moved seed => exact Transfer.uncalled_construction (begins_moveTransfer _).uncalled _
  | copied seed => exact Transfer.uncalled_construction (begins_copyTransfer _).uncalled _

theorem Origin.uncalled_placement (o : Origin) (c : ControlBlock) : Uncalled (o.placement c).events := by
  unfold placement
  split
  · exact uncalled_nil
  · split
    · have hk := uncalled_construction o { c with state := .constructing }
      split <;> exact hk
    · exact uncalled_nil

/-! ### Runs with and without attempts -/

@[simp] theorem Value.withoutAttempts_withoutAttempts (v : Value) : v.withoutAttempts.withoutAttempts = v.withoutAttempts := by
  cases v with
  | probe id onBuild onDestroy => simp only [withoutAttempts, List.filter_filter, Bool.and_self]
  | _ => rfl

/-- The worlds differ by the attempts of the value in the slot, and by the answers to attempts. -/
structure World.SameBesidesAttempts (s : SlotId) (w u : World) : Prop where
  control : ∀ t, w.controlOf t = u.controlOf t
  stored : (w.storageOf s).map Value.withoutAttempts = (u.storageOf s).map Value.withoutAttempts
  elsewhere : ∀ t, t ≠ s → w.storageOf t = u.storageOf t
  outside : w.held = u.held ∧ w.bag = u.bag ∧ w.values = u.values
  trace : unanswered w.trace = unanswered u.trace

/-- Two endings of one kind, with the same result or for the same reason, in worlds that differ by attempts. -/
def EndsAlike {α β : Type} (s : SlotId) (result : α → β) :
    EStateM.Result Failure World α → EStateM.Result Failure World α → Prop
  | .ok x w, .ok y u => result x = result y ∧ w.SameBesidesAttempts s u
  | .error f w, .error g u => f = g ∧ w.SameBesidesAttempts s u
  | _, _ => False

namespace World.SameBesidesAttempts

theorem refl (s : SlotId) (w : World) : w.SameBesidesAttempts s w :=
  ⟨fun _ => rfl, rfl, fun _ _ => rfl, ⟨rfl, rfl, rfl⟩, rfl⟩

theorem log (h : w.SameBesidesAttempts s u) (he : unanswered es = unanswered es') :
    (w.log es).SameBesidesAttempts s (u.log es') := by
  refine ⟨h.control, h.stored, h.elsewhere, h.outside, ?_⟩
  rw [trace_log, trace_log, unanswered_append, unanswered_append, h.trace, he]

theorem setControl (h : w.SameBesidesAttempts s u) (hx : (w.slots.find? s).isSome) (hx' : (u.slots.find? s).isSome)
    (c : ControlBlock) : (w.setControl s c).SameBesidesAttempts s (u.setControl s c) := by
  refine ⟨fun t => ?_, ?_, fun t ht => ?_, h.outside, h.trace⟩
  · by_cases hts : t = s
    · subst hts
      rw [controlOf_setControl_self c hx, controlOf_setControl_self c hx']
    · rw [controlOf_setControl_of_ne _ c hts, controlOf_setControl_of_ne _ c hts, h.control t]
  · rw [storageOf_setControl, storageOf_setControl, h.stored]
  · rw [storageOf_setControl, storageOf_setControl, h.elsewhere t ht]

/-- It makes no difference to leave the attempts of the value out. -/
theorem setStorage (hv : w.storageOf s = some v) (hx : (w.slots.find? s).isSome) :
    w.SameBesidesAttempts s (w.setStorage s v.withoutAttempts) := by
  refine ⟨fun t => (controlOf_setStorage ..).symm, ?_, fun t ht => ?_, ⟨rfl, rfl, rfl⟩, rfl⟩
  · rw [storageOf_setStorage_self _ hx, hv, Option.map_some, Option.map_some, Value.withoutAttempts_withoutAttempts]
  · exact (storageOf_setStorage_of_ne _ _ ht).symm

theorem built {v' : Value} (hx : (w.slots.find? s).isSome) (hv : v.withoutAttempts = v'.withoutAttempts)
    (he : unanswered es = unanswered es') : (w.built s v es).SameBesidesAttempts s (w.built s v' es') := by
  have htype : v.type = v'.type := by
    rw [← Value.type_withoutAttempts v, hv, Value.type_withoutAttempts]
  have helsewhere : ∀ t, t ≠ s → (w.built s v es).slots.find? t = (w.built s v' es').slots.find? t := fun t ht =>
    ((find?_built w s t v es).trans (if_neg ht)).trans ((find?_built w s t v' es').trans (if_neg ht)).symm
  refine ⟨fun t => ?_, ?_, fun t ht => storageOf_congr (helsewhere t ht), ⟨rfl, rfl, rfl⟩, ?_⟩
  · by_cases hts : t = s
    · subst hts
      rw [controlOf_built hx, controlOf_built hx, htype]
    · exact controlOf_congr (helsewhere t hts)
  · rw [storageOf_built hx, storageOf_built hx, Option.map_some, Option.map_some, hv]
  · change unanswered (w.trace ++ es ++ [.constructed s v.type]) = unanswered (w.trace ++ es' ++ [.constructed s v'.type])
    simp only [unanswered_append, he, htype]

end World.SameBesidesAttempts

/-! ### Constructors -/

namespace Origin

/-- What is left of a restrained constructor throws, if anything. -/
theorem onBuild_withoutAttempts (hb : Restrained o.onBuild) : ∀ a ∈ o.withoutAttempts.onBuild, a = .raise := by
  cases o with
  | arguments seed =>
    obtain ⟨v, hv⟩ := seed
    cases v with
    | probe id onBuild onDestroy =>
      intro a ha
      obtain ⟨ha, hattempt⟩ := List.mem_filter.mp ha
      refine (hb a ha).resolve_right ?_
      simpa using hattempt
    | _ => exact fun a ha => absurd ha List.not_mem_nil
  | moved _ | copied _ => exact fun a ha => absurd ha List.not_mem_nil

theorem withoutAttempts_withoutAttempts (o : Origin) : o.withoutAttempts.withoutAttempts = o.withoutAttempts := by
  cases o with
  | arguments seed => simp only [withoutAttempts, Value.withoutAttempts_withoutAttempts]
  | moved _ | copied _ => rfl

/-- Without its attempts a constructor hears no answers. -/
theorem outcome_withoutAttempts (hb : Restrained o.onBuild) (c : ControlBlock) :
    o.withoutAttempts.outcome c = o.withoutAttempts.placement c := by
  unfold outcome
  rw [withoutAttempts_withoutAttempts, c.refusals_of_raises (onBuild_withoutAttempts hb), Placement.amid_nil]

theorem value_withoutAttempts (o : Origin) :
    o.withoutAttempts.seed.value.withoutAttempts = o.seed.value.withoutAttempts := by
  cases o with
  | arguments seed => exact Value.withoutAttempts_withoutAttempts seed.value
  | moved _ | copied _ => rfl

end Origin

/-- A factory ends as it would without the attempts of the constructor. -/
theorem make_endsAlike (family : Family) (elem : Ty) (hd : w.slots.Distinct) (hx : (w.slots.find? s).isSome)
    (hb : Restrained o.onBuild) :
    EndsAlike s (Except.map Made.handle) (make family elem s o w) (make family elem s o.withoutAttempts w) := by
  have hmake := make_apply family elem hd hx hb
  have hwithout := make_apply family elem hd hx fun a ha => .inl (Origin.onBuild_withoutAttempts hb a ha)
  rw [Origin.outcome_withoutAttempts hb] at hwithout
  unfold Origin.outcome at hmake
  have hsilent : ∀ es, unanswered (es ++ ((w.controlOf s).refusals o.onBuild).map .refused) = unanswered es := by
    intro es
    rw [unanswered_append, unanswered_refused, List.append_nil]
  rw [hmake, hwithout]
  cases o.withoutAttempts.placement (w.controlOf s) with
  | refused e => exact ⟨rfl, .refl s w⟩
  | threw t es => exact ⟨rfl, (SameBesidesAttempts.refl s w).log (hsilent es)⟩
  | built es =>
    refine ⟨?_, .built hx o.value_withoutAttempts.symm (hsilent es)⟩
    simp only [Except.map, madeHandle, Origin.type_withoutAttempts]

/-- The attempts of a constructor that runs hear their answers, and one that does not run makes none. -/
theorem make_answers (family : Family) (elem : Ty) (hd : w.slots.Distinct) (hx : (w.slots.find? s).isSome)
    (hb : Restrained o.onBuild) :
    Ends (make family elem s o) w
      (fun r w' => match r with
        | .error _ => w' = w
        | .ok _ => answers (w'.since w) = (w.controlOf s).refusals o.onBuild)
      (fun _ w' => answers (w'.since w) = (w.controlOf s).refusals o.onBuild) := by
  have hmake := make_apply family elem hd hx hb
  unfold Origin.outcome at hmake
  have hcalled := o.withoutAttempts.uncalled_placement (w.controlOf s)
  generalize (w.controlOf s).refusals o.onBuild = codes at hmake ⊢
  cases hp : o.withoutAttempts.placement (w.controlOf s) with
  | refused e =>
    rw [hp] at hmake
    exact (ends_of_ok hmake).mpr rfl
  | threw t es =>
    rw [hp] at hmake hcalled
    refine (ends_of_error hmake).mpr ?_
    have hsince : (w.log (es ++ codes.map .refused)).since w = es ++ codes.map .refused ++ [] := by
      rw [since_eq rfl, List.append_nil]
    rw [hsince]
    exact answers_amid hcalled codes uncalled_nil
  | built es =>
    rw [hp] at hmake hcalled
    refine (ends_of_ok hmake).mpr ?_
    have hsince : (w.built s o.seed.value (es ++ codes.map .refused)).since w =
        es ++ codes.map .refused ++ [.constructed s o.seed.value.type] := since_eq (List.append_assoc ..)
    dsimp only
    rw [hsince]
    exact answers_amid hcalled codes (uncalled_single rfl)

/-! ### Destructors -/

/-- A destructor that only makes attempts announces its end and hears the answers. -/
theorem destroyStoredWith_of_attempts (td : SlotId → Act Unit) (hd : w.slots.Distinct)
    (hs : (w.controlOf s).state ≠ .empty) (hv : w.storageOf s = some v) (hn : v.next? = none)
    (ha : ∀ a ∈ v.onDestroy, a.isAttempt) :
    destroyStoredWith td s v.type w = .ok () (w.log (.destructed s v.type :: v.lastWords (w.controlOf s) ++
      ((w.controlOf s).refusals v.onDestroy).map .refused)) := by
  have hobj : (w.log [.destructed s v.type]).objectAs (.slot s) v.type = v := objectAs_slot hv
  unfold destroyStoredWith
  rw [bind_of_ok (record_apply ..), bind_of_ok (rfl : (get : Act World) _ = .ok _ _)]
  simp only [hobj]
  cases v with
  | probe id onBuild onDestroy =>
    change ∀ a ∈ onDestroy, a.isAttempt at ha
    have hnone : Action.raise ∉ onDestroy := fun hr => Bool.false_ne_true (ha _ hr)
    have hrun := forM_restrained (w := w.log ([.destructed s (.single .probe)] ++
      [.probeDestroyed id (w.controlOf s).summary])) td id hd hs (fun a h => .inr (ha a h))
    rw [if_neg hnone] at hrun
    dsimp only
    rw [bind_of_ok (controlNow_apply ..), bind_of_ok (record_apply ..), log_log]
    refine (bind_of_ok hrun).trans ?_
    rw [destroyWith_apply, log_log, log_log]
    exact congrArg (fun es => EStateM.Result.ok () (w.log (.destructed s _ :: .probeDestroyed id _ :: es)))
      (List.append_nil _)
  | node id next | snode id next => cases hn
  | _ =>
    dsimp only
    rw [destroyWith_apply, log_log]
    exact congrArg (EStateM.Result.ok ()) (congrArg w.log (List.append_nil _).symm)

/-- The count of the slot when its last owner has let go. -/
def Handle.countLeft (h : Handle) (c : ControlBlock) : UInt32 :=
  match h.family with
  | .unique => c.count
  | .shared => c.count - 1

/-- The handle is about to let its value be torn down: it owns the value alone, or is the last one to share it. -/
def Handle.IsLast (h : Handle) (c : ControlBlock) : Prop := h.family = .unique ∨ c.count = 1

/-- A teardown from its claim to the return of the slot, whatever count the claim leaves. -/
theorem tearDownWithin_of_attempts (hd : w.slots.Distinct) (ht : w.typeIn s = some v.type)
    (hv : w.storageOf s = some v) (hn : v.next? = none) (ha : ∀ a ∈ v.onDestroy, a.isAttempt) (depth : Nat)
    (n : UInt32) :
    tearDownWithin (depth + 1) s (w.setControl s { w.controlOf s with count := n }) =
      .ok () ((w.setControl s { w.controlOf s with state := .empty, count := n, type := none }).log
        (.destructed s v.type :: v.lastWords { w.controlOf s with state := .tearingDown, count := n, type := none } ++
          ((w.controlOf s).refusals v.onDestroy).map .refused)) := by
  obtain ⟨ho, htype⟩ := typeIn_eq_some_iff.mp ht
  have hclaimed : (w.claimed s n).controlOf s =
      { w.controlOf s with state := .tearingDown, count := n, type := none } :=
    controlOf_setControl_self _ (find?_isSome_of_occupied ho)
  have hstate : ((w.claimed s n).controlOf s).state ≠ .empty := by
    rw [hclaimed]
    exact Occupancy.noConfusion
  have hanswers : ((w.claimed s n).controlOf s).refusals v.onDestroy = (w.controlOf s).refusals v.onDestroy := by
    rw [hclaimed]
    apply ControlBlock.refusals_congr <;> rfl
  have hvacated : (w.claimed s n).setControl s { (w.claimed s n).controlOf s with state := .empty } =
      w.setControl s { w.controlOf s with state := .empty, count := n, type := none } := by
    rw [hclaimed]
    exact setControl_setControl ..
  have hdestroy := destroyStoredWith_of_attempts (w := w.claimed s n) (tearDownWithin depth)
    (distinct_setControl hd s _) hstate ((storageOf_setControl ..).trans hv) hn ha
  refine (tearDownWithin_succ depth n ho htype).trans ((bind_of_ok hdestroy).trans ?_)
  refine (onControl_ok (ControlBlock.vacate_apply _)).trans (congrArg _ ?_)
  rw [hanswers, ← hvacated, ← hclaimed]
  rfl

/-- The last owner lets go of a value whose destructor only makes attempts. -/
theorem release_of_attempts (hd : w.slots.Distinct) (hs : h.slot = some s) (hlast : h.IsLast (w.controlOf s))
    (ht : w.typeIn s = some v.type) (hv : w.storageOf s = some v) (hn : v.next? = none)
    (ha : ∀ a ∈ v.onDestroy, a.isAttempt) :
    release h w = .ok () ((w.setControl s { w.controlOf s with
        state := .empty, count := h.countLeft (w.controlOf s), type := none }).log
      (.destructed s v.type :: v.lastWords { w.controlOf s with
          state := .tearingDown, count := h.countLeft (w.controlOf s), type := none } ++
        ((w.controlOf s).refusals v.onDestroy).map .refused)) := by
  obtain ⟨depth, hdepth⟩ : ∃ depth, w.liveSlots = depth + 1 :=
    Nat.exists_eq_succ_of_ne_zero (liveSlots_pos (typeIn_eq_some_iff.mp ht).1).ne'
  have hteardown := tearDownWithin_of_attempts hd ht hv hn ha depth
  rw [release_apply hd, hdepth]
  unfold releaseWith
  rw [hs]
  unfold Handle.IsLast at hlast
  unfold Handle.countLeft
  cases hf : h.family with
  | unique =>
    have hrun := hteardown (w.controlOf s).count
    rw [setControl_controlOf hd] at hrun
    exact hrun
  | shared =>
    have hcount : (w.controlOf s).count = 1 := hlast.resolve_left (by rw [hf]; exact Family.noConfusion)
    have hdrop := dropWith_apply (tearDownWithin (depth + 1)) s w
    rw [if_neg (by rw [hcount]; decide), if_pos hcount] at hdrop
    exact hdrop.trans (hteardown ((w.controlOf s).count - 1))

theorem EndsAlike.refl {α β : Type} (s : SlotId) (result : α → β) (r : EStateM.Result Failure World α) :
    EndsAlike s result r r := by
  cases r with
  | ok x w => exact ⟨rfl, .refl s w⟩
  | error f w => exact ⟨rfl, .refl s w⟩

/-- A value that stores a handle attempts nothing. -/
theorem Value.withoutAttempts_of_next? {g : Handle} (hn : v.next? = some g) : v.withoutAttempts = v := by
  cases v with
  | probe id onBuild onDestroy => cases hn
  | _ => rfl

theorem Value.onDestroy_withoutAttempts (ha : ∀ a ∈ v.onDestroy, a.isAttempt) : v.withoutAttempts.onDestroy = [] := by
  cases v with
  | probe id onBuild onDestroy =>
    change onDestroy.filter (!·.isAttempt) = []
    rw [List.filter_eq_nil_iff]
    intro a h
    simp [show a.isAttempt from ha a h]
  | _ => rfl

theorem Value.lastWords_withoutAttempts (c : ControlBlock) (v : Value) :
    v.withoutAttempts.lastWords c = v.lastWords c := by
  cases v <;> rfl

/-- The last owner lets go of a value as it would without the attempts of the destructor. -/
theorem release_endsAlike (hd : w.slots.Distinct) (hs : h.slot = some s) (hlast : h.IsLast (w.controlOf s))
    (ht : w.typeIn s = some v.type) (hv : w.storageOf s = some v) (ha : ∀ a ∈ v.onDestroy, a.isAttempt) :
    EndsAlike s id (release h w) (release h (w.setStorage s v.withoutAttempts)) := by
  cases hn : v.next? with
  | some g =>
    rw [Value.withoutAttempts_of_next? hn, setStorage_storageOf hd hv]
    exact .refl s id _
  | none =>
    have hx := find?_isSome_of_occupied (typeIn_eq_some_iff.mp ht).1
    have hwithout := release_of_attempts (w := w.setStorage s v.withoutAttempts) (distinct_setStorage hd s _) hs
      (by rwa [controlOf_setStorage]) (by rw [typeIn_setStorage, ht, Value.type_withoutAttempts])
      (storageOf_setStorage_self _ hx) (by rw [Value.next?_withoutAttempts, hn])
      (by rw [Value.onDestroy_withoutAttempts ha]; exact fun a h => absurd h List.not_mem_nil)
    rw [controlOf_setStorage, Value.onDestroy_withoutAttempts ha, ControlBlock.refusals_nil, Value.type_withoutAttempts,
      Value.lastWords_withoutAttempts] at hwithout
    rw [release_of_attempts hd hs hlast ht hv hn ha, hwithout]
    have hstored := SameBesidesAttempts.setStorage hv hx
    have hx' : ((w.setStorage s v.withoutAttempts).slots.find? s).isSome := by
      rwa [find?_setStorage, if_pos rfl, Option.isSome_map]
    refine ⟨rfl, (hstored.setControl hx hx' _).log ?_⟩
    rw [unanswered_append, unanswered_append, unanswered_refused]
    rfl

/-- **Attempts.**  An attempt at a slot that is not empty is refused for the reason that applies, and only heard of.  A
constructor that makes attempts at its own slot, and may throw after them, ends as it would without them; so does the
destructor of a value, and only then does its slot take another value. -/
theorem attempts_go_unnoticed (hd : w.slots.Distinct) (hx : (w.slots.find? s).isSome) :
    (∀ td id t, (w.controlOf s).state ≠ .empty →
      performWith td id s (.place t) w = .ok () (w.log [.refused ((w.controlOf s).refusal t)])) ∧
    (∀ t, (w.HasRoomFor s t → (w.controlOf s).refusal t = .slotOccupied) ∧
      (¬ w.HasRoomFor s t → (w.controlOf s).refusal t = .capacityExceeded)) ∧
    (∀ family elem o, Restrained o.onBuild →
      EndsAlike s (Except.map Made.handle) (make family elem s o w) (make family elem s o.withoutAttempts w) ∧
      Ends (make family elem s o) w
        (fun r w' => match r with
          | .error _ => w' = w
          | .ok _ => answers (w'.since w) = (w.controlOf s).refusals o.onBuild)
        (fun _ w' => answers (w'.since w) = (w.controlOf s).refusals o.onBuild)) ∧
    (∀ (h : Handle) v, h.slot = some s → h.IsLast (w.controlOf s) → w.typeIn s = some v.type → w.storageOf s = some v →
      (∀ a ∈ v.onDestroy, a.isAttempt) →
      EndsAlike s id (release h w) (release h (w.setStorage s v.withoutAttempts)) ∧
      (v.next? = none → ∃ w', release h w = .ok () w' ∧
        answers (w'.since w) = (w.controlOf s).refusals v.onDestroy ∧ ∀ t, w.HasRoomFor s t → w'.Takes s t)) := by
  refine ⟨fun td id t hs => performWith_place td id hd hs t, fun t => ?_, fun family elem o hb => ?_,
    fun h v hs hlast ht hv ha => ⟨release_endsAlike hd hs hlast ht hv ha, fun hn => ?_⟩⟩
  · have hroom := hasRoom_iff (w := w) (s := s) t
    unfold ControlBlock.refusal
    exact ⟨fun h => if_pos (hroom.mpr h), fun h => if_neg fun h' => h (hroom.mp h')⟩
  · exact ⟨make_endsAlike family elem hd hx hb, make_answers family elem hd hx hb⟩
  · have hblock := controlOf_setControl_self (w := w) { w.controlOf s with
      state := .empty, count := h.countLeft (w.controlOf s), type := none } hx
    refine ⟨_, release_of_attempts hd hs hlast ht hv hn ha, ?_, fun t hroom => ?_⟩
    · rw [since_eq rfl, answers_append, answers_refused, (Uncalled.answers_eq ?_ : answers (_ :: _) = []), List.nil_append]
      exact (uncalled_single rfl).append (uncalled_lastWords _ v)
    · unfold Takes
      rw [controlOf_log, hblock]
      exact ⟨rfl, (hasRoom_iff t).mpr hroom⟩

/-- A probe that tries to place a number while it is built, and too many of them, and a number again at its end. -/
def attemptingProbe : Seed :=
  .plain (.probe 4 [.place (.single .int), .place (.collection .int 100)] [.place (.single .int)])

def probeHandle : Handle := ⟨.shared, .ofKind .probe, some (.numbered 0), .object (some (.startOf (.numbered 0)))⟩

/-- The probe has been built. -/
def attempted : World :=
  (ofSlots twoSlots).built (.numbered 0) attemptingProbe.value
    [.probeBuilt 4 "constructing:-:0", .refused .slotOccupied, .refused .capacityExceeded]

theorem attempts_go_unnoticed_attemptingProbe : (ofSlots twoSlots).slots.Distinct ∧
    ((ofSlots twoSlots).slots.find? (.numbered 0)).isSome ∧ Restrained (Origin.arguments attemptingProbe).onBuild ∧
    make .shared (.ofKind .probe) (.numbered 0) (.arguments attemptingProbe) (ofSlots twoSlots) =
      .ok (.ok ⟨probeHandle, attemptingProbe.value⟩) attempted ∧
    answers (attempted.since (ofSlots twoSlots)) = [.slotOccupied, .capacityExceeded] ∧
    ∃ w', release probeHandle attempted = .ok () w' ∧ answers (w'.since attempted) = [.slotOccupied] ∧
      w'.Takes (.numbered 0) (.single .int) := by
  have hd : (ofSlots twoSlots).slots.Distinct := allEmpty_twoSlots.1
  have hd' : attempted.slots.Distinct := show (attempted.slots.map Prod.fst).Nodup by decide
  have hb : Restrained (Origin.arguments attemptingProbe).onBuild :=
    show ∀ a ∈ attemptingProbe.value.onBuild, a = .raise ∨ a.isAttempt by decide
  have hmake : make .shared (.ofKind .probe) (.numbered 0) (.arguments attemptingProbe) (ofSlots twoSlots) =
      .ok (.ok ⟨probeHandle, attemptingProbe.value⟩) attempted := rfl
  obtain ⟨-, -, hbuild, -⟩ := attempts_go_unnoticed hd (s := .numbered 0) rfl
  have hheard := (hbuild .shared (.ofKind .probe) (.arguments attemptingProbe) hb).2.ok hmake
  obtain ⟨-, -, -, hdestroy⟩ := attempts_go_unnoticed hd' (s := .numbered 0) rfl
  have hattempts : ∀ a ∈ attemptingProbe.value.onDestroy, a.isAttempt := by decide
  obtain ⟨w', hrun, hheard', htakes⟩ :=
    (hdestroy probeHandle attemptingProbe.value rfl (.inr rfl) rfl rfl hattempts).2 rfl
  exact ⟨hd, rfl, hb, hmake, hheard, w', hrun, hheard', htakes _ ⟨by decide, by decide⟩⟩

end SlotHandles
