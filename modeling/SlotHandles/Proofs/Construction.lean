import SlotHandles.Proofs.Building

/-!
# What comes of making a handle

A step that makes a handle looks at the control block of one slot and at nothing else.  `Origin.placement` computes
from the block whether the value is refused, whether its constructor throws, and what is announced; `run_make_apply`
is the equation of the step.
-/

namespace SlotHandles

open World

/-- What a construction announces, and what it throws if it fails. -/
structure Construction where
  events : List Event
  thrown : Option Thrown

/-- How an action ends that only carries out a construction. -/
def Construction.result {α : Type} (k : Construction) (x : α) (w : World) : EStateM.Result Failure World α :=
  match k.thrown with
  | some t => .error (.exception t) (w.log k.events)
  | none => .ok x (w.log k.events)

/-- A passive value is built from its arguments in a slot with the block. -/
def Value.construction (c : ControlBlock) (v : Value) : Construction :=
  match v.refusal? with
  | some refusal => ⟨v.arrival ++ v.unwinding, some refusal⟩
  | none =>
    match v with
    | .probe id actions _ =>
      ⟨v.arrival ++ [.probeBuilt id c.summary],
        if actions.isEmpty then none else some (.runtimeError s!"probe {id.toInt}")⟩
    | _ => ⟨v.arrival, none⟩

def Transfer.construction (t : Transfer) (byCopy : Bool) : Construction :=
  match if byCopy then t.value.copyRefusal? else none with
  | some refusal => ⟨t.events ++ t.value.unwinding, some refusal⟩
  | none => ⟨t.events, none⟩

namespace Origin

/-- The value is built from its origin in a slot with the block. -/
def construction (c : ControlBlock) : Origin → Construction
  | .arguments seed => seed.value.construction c
  | .moved seed => seed.value.moveTransfer.construction seed.value.movesByCopy
  | .copied seed => seed.value.copyTransfer.construction true

/-- What is left of the value's origin. -/
def rest : Origin → Value
  | .arguments seed => seed.value
  | .moved seed => seed.value.moveTransfer.source
  | .copied seed => seed.value.copyTransfer.source

end Origin

/-- What comes of placing a value: it is refused, its constructor throws, or it is built. -/
inductive Placement
  | refused (e : ErrorCode)
  | threw (t : Thrown) (es : List Event)
  | built (es : List Event)

/-- What is announced on the way. -/
def Placement.events : Placement → List Event
  | .refused _ => []
  | .threw _ es | .built es => es

/-- What comes of placing the value in a slot with the block. -/
def Origin.placement (o : Origin) (c : ControlBlock) : Placement :=
  if c.hasRoom o.type.layout.size o.type.layout.alignment = false then .refused .capacityExceeded
  else if c.state = .empty then
    match (o.construction { c with state := .constructing }).thrown with
    | some t => .threw t (o.construction { c with state := .constructing }).events
    | none => .built (o.construction { c with state := .constructing }).events
  else .refused .slotOccupied

variable {w : World} {s : SlotId} {v : Value} {o : Origin}

/-! ### Attempts -/

/-- The action only tries to place a value in the slot. -/
def Action.isAttempt : Action → Bool
  | .place _ => true
  | _ => false

/-- No control block is called: each action throws, or tries to place a value in the slot. -/
def Restrained (actions : List Action) : Prop := ∀ a ∈ actions, a = .raise ∨ a.isAttempt

namespace ControlBlock

/-- Why a slot that is not empty takes no value of the type. -/
def refusal (c : ControlBlock) (t : StoredType) : ErrorCode :=
  if c.hasRoom t.size t.alignment then .slotOccupied else .capacityExceeded

/-- The answers to attempts, up to the first exception. -/
def refusals (c : ControlBlock) : List Action → List ErrorCode
  | .place t :: rest => c.refusal t :: c.refusals rest
  | _ => []

end ControlBlock

namespace Value

/-- What a value does to its slot while it is built. -/
def onBuild : Value → List Action
  | .probe _ onBuild _ => onBuild
  | _ => []

/-- What a value does to its slot while it is destroyed. -/
def onDestroy : Value → List Action
  | .probe _ _ onDestroy => onDestroy
  | _ => []

/-- The value without its attempts to place other values. -/
def withoutAttempts : Value → Value
  | .probe id onBuild onDestroy => .probe id (onBuild.filter (!·.isAttempt)) (onDestroy.filter (!·.isAttempt))
  | v => v

@[simp] theorem type_withoutAttempts (v : Value) : v.withoutAttempts.type = v.type := by
  cases v <;> rfl

@[simp] theorem next?_withoutAttempts (v : Value) : v.withoutAttempts.next? = v.next? := by
  cases v <;> rfl

theorem onBuild_of_isPassive (hp : v.isPassive) : ∀ a ∈ v.onBuild, a = .raise := by
  cases v with
  | probe id onBuild onDestroy =>
    simp only [isPassive, Bool.and_eq_true, List.all_eq_true, decide_eq_true_eq] at hp
    exact hp.1
  | _ => exact fun a ha => absurd ha List.not_mem_nil

theorem onDestroy_of_isPassive (hp : v.isPassive) : v.onDestroy = [] := by
  cases v with
  | probe id onBuild onDestroy =>
    simp only [isPassive, Bool.and_eq_true, List.isEmpty_iff] at hp
    exact hp.2
  | _ => rfl

/-- A passive value attempts nothing. -/
theorem withoutAttempts_of_isPassive (hp : v.isPassive) : v.withoutAttempts = v := by
  have hbuild := onBuild_of_isPassive hp
  have hdestroy := onDestroy_of_isPassive hp
  cases v with
  | probe id onBuild onDestroy =>
    obtain rfl : onDestroy = [] := hdestroy
    have hkept : onBuild.filter (!·.isAttempt) = onBuild := by
      rw [List.filter_eq_self]
      intro a ha
      rw [hbuild a ha]
      rfl
    simp only [withoutAttempts, hkept, List.filter_nil]
  | _ => rfl

end Value

theorem ControlBlock.refusals_nil (c : ControlBlock) : c.refusals [] = [] := rfl

theorem ControlBlock.refusals_of_raises (c : ControlBlock) {actions : List Action} (ha : ∀ a ∈ actions, a = .raise) :
    c.refusals actions = [] := by
  cases actions with
  | nil => rfl
  | cons a rest =>
    rw [ha a List.mem_cons_self]
    rfl

/-- The answers to attempts depend on the storage of the slot only. -/
theorem ControlBlock.refusals_congr {c d : ControlBlock} (hcapacity : c.capacity = d.capacity)
    (haddress : c.address = d.address) (actions : List Action) : c.refusals actions = d.refusals actions := by
  have hrefusal : ∀ t, c.refusal t = d.refusal t := by
    intro t
    unfold refusal hasRoom
    rw [hcapacity, haddress]
  induction actions with
  | nil => rfl
  | cons a rest ih =>
    cases a with
    | place t =>
      unfold refusals
      rw [hrefusal, ih]
    | _ => rfl

namespace Origin

/-- The same origin for the value without its attempts.  Only a construction from arguments runs the value's own
code. -/
def withoutAttempts : Origin → Origin
  | .arguments seed => .arguments ⟨seed.value.withoutAttempts, by simpa using seed.unlinked⟩
  | o => o

/-- What the constructor does to the slot. -/
def onBuild : Origin → List Action
  | .arguments seed => seed.value.onBuild
  | _ => []

@[simp] theorem type_withoutAttempts (o : Origin) : o.withoutAttempts.type = o.type := by
  cases o with
  | arguments seed => exact Value.type_withoutAttempts seed.value
  | moved _ | copied _ => rfl

theorem onBuild_of_isNew (hn : o.seed.IsNew) : ∀ a ∈ o.onBuild, a = .raise := by
  cases o with
  | arguments seed => exact Value.onBuild_of_isPassive hn.1
  | moved _ | copied _ => exact fun a ha => absurd ha List.not_mem_nil

theorem restrained_of_isNew (hn : o.seed.IsNew) : Restrained o.onBuild :=
  fun a ha => .inl (onBuild_of_isNew hn a ha)

theorem withoutAttempts_of_isNew (hn : o.seed.IsNew) : o.withoutAttempts = o := by
  cases o with
  | arguments seed =>
    have hsame : seed.value.withoutAttempts = seed.value := Value.withoutAttempts_of_isPassive hn.1
    simp only [withoutAttempts, hsame]
  | moved _ | copied _ => rfl

end Origin

/-- The construction with the answers to the attempts that are made on the way. -/
def Construction.amid (k : Construction) (answers : List ErrorCode) : Construction :=
  ⟨k.events ++ answers.map .refused, k.thrown⟩

/-- What comes of placing a value, with the answers to the attempts of its constructor. -/
def Placement.amid (answers : List ErrorCode) : Placement → Placement
  | .refused e => .refused e
  | .threw t es => .threw t (es ++ answers.map .refused)
  | .built es => .built (es ++ answers.map .refused)

theorem Construction.amid_nil (k : Construction) : k.amid [] = k := by
  simp [amid]

theorem Construction.result_amid_nil {α : Type} (k : Construction) (x : α) (w : World) :
    (k.amid []).result x w = k.result x w := by
  rw [amid_nil]

theorem Placement.amid_nil (a : Placement) : a.amid [] = a := by
  cases a <;> simp [amid]

theorem Restrained.tail {a : Action} {rest : List Action} (h : Restrained (a :: rest)) : Restrained rest :=
  fun b hb => h b (List.mem_cons_of_mem a hb)

/-- Without its attempts a restrained value does nothing but throw. -/
theorem Restrained.isEmpty_filter_iff {actions : List Action} (h : Restrained actions) :
    (actions.filter (!·.isAttempt)).isEmpty ↔ Action.raise ∉ actions := by
  rw [List.isEmpty_iff, List.filter_eq_nil_iff]
  constructor
  · intro hnone hr
    exact hnone .raise hr rfl
  · intro hr a ha
    rcases h a ha with rfl | hattempt
    · exact absurd ha hr
    · simp [hattempt]

/-- An attempt at a slot that is not empty is refused, and nothing else comes of it. -/
theorem performWith_place (td : SlotId → Act Unit) (id : Int32) (hd : w.slots.Distinct)
    (hs : (w.controlOf s).state ≠ .empty) (t : StoredType) :
    performWith td id s (.place t) w = .ok () (w.log [.refused ((w.controlOf s).refusal t)]) := by
  have hclaim := claim_apply hd s t.layout
  unfold performWith ControlBlock.refusal StoredType.size StoredType.alignment
  dsimp only
  cases hroom : (w.controlOf s).hasRoom t.layout.size t.layout.alignment with
  | false =>
    rw [if_pos hroom] at hclaim
    rw [bind_of_ok hclaim]
    rfl
  | true =>
    rw [if_neg (by simp [hroom]), if_neg hs] at hclaim
    rw [bind_of_ok hclaim]
    rfl

/-- Whatever a restrained value tries in a slot that is not empty, it only hears refusals, until it throws. -/
theorem forM_restrained (td : SlotId → Act Unit) (id : Int32) (hd : w.slots.Distinct)
    (hs : (w.controlOf s).state ≠ .empty) {actions : List Action} (ha : Restrained actions) :
    actions.forM (performWith td id s) w =
      Construction.result ⟨((w.controlOf s).refusals actions).map .refused,
        if .raise ∈ actions then some (.runtimeError s!"probe {id.toInt}") else none⟩ () w := by
  induction actions generalizing w with
  | nil => exact congrArg _ (log_nil w).symm
  | cons a rest ih =>
    rcases ha a List.mem_cons_self with rfl | hattempt
    · rw [if_pos List.mem_cons_self]
      exact congrArg _ (log_nil w).symm
    · obtain ⟨t, rfl⟩ : ∃ t, a = .place t := by
        cases a with
        | place t => exact ⟨t, rfl⟩
        | _ => cases hattempt
      have hrest := ih (w := w.log [.refused ((w.controlOf s).refusal t)]) hd hs ha.tail
      have hmem : Action.raise ∈ Action.place t :: rest ↔ Action.raise ∈ rest := by simp
      refine (bind_of_ok (performWith_place td id hd hs t)).trans (hrest.trans ?_)
      unfold Construction.result
      simp only [hmem]
      split
      · rw [log_log]
        rfl
      · rw [log_log]
        rfl

/-! ### Constructors -/

/-- Without its attempts a restrained constructor throws at once, if it throws. -/
theorem Value.construction_withoutAttempts (c : ControlBlock) (id : Int32) {onBuild : List Action} (onDestroy : List Action)
    (hv : Restrained onBuild) :
    (Value.probe id onBuild onDestroy).withoutAttempts.construction c =
      ⟨[.probeBuilt id c.summary], if .raise ∈ onBuild then some (.runtimeError s!"probe {id.toInt}") else none⟩ := by
  have hempty := hv.isEmpty_filter_iff
  unfold withoutAttempts construction
  by_cases hr : Action.raise ∈ onBuild
  · have hkept : (onBuild.filter (!·.isAttempt)).isEmpty = false := by
      rw [← Bool.not_eq_true, hempty]
      exact not_not_intro hr
    simp only [refusal?, hkept, if_pos hr]
    rfl
  · simp only [refusal?, hempty.mpr hr, if_neg hr]
    rfl

theorem buildFresh_of_ne_probe (s : SlotId) (hv : ∀ id onBuild onDestroy, v ≠ .probe id onBuild onDestroy) (w : World) :
    buildFresh s v w = (v.construction (w.controlOf s)).result () w := by
  unfold buildFresh Value.construction Construction.result
  rw [bind_of_ok (recordAll_apply ..)]
  cases v.refusal? with
  | some refusal =>
    dsimp only
    rw [bind_of_ok (recordAll_apply ..), log_log]
    rfl
  | none =>
    cases v with
    | probe id onBuild onDestroy => exact absurd rfl (hv id onBuild onDestroy)
    | _ => rfl

/-- A constructor does what it would do without its attempts, and hears the answers to them. -/
theorem buildFresh_apply (hd : w.slots.Distinct) (hs : (w.controlOf s).state ≠ .empty) (hv : Restrained v.onBuild) :
    buildFresh s v w =
      ((v.withoutAttempts.construction (w.controlOf s)).amid ((w.controlOf s).refusals v.onBuild)).result () w := by
  cases v with
  | probe id onBuild onDestroy =>
    change Restrained onBuild at hv
    rw [Value.construction_withoutAttempts _ id onDestroy hv]
    unfold buildFresh
    dsimp only [Value.refusal?]
    rw [bind_of_ok (recordAll_apply ..), bind_of_ok (controlNow_apply ..), bind_of_ok (record_apply ..), log_log]
    refine (forM_restrained (w := w.log _) tearDown id hd hs hv).trans ?_
    unfold Construction.result Construction.amid
    by_cases hr : Action.raise ∈ onBuild
    · simp only [if_pos hr, log_log]
      rfl
    · simp only [if_neg hr, log_log]
      rfl
  | _ =>
    exact (buildFresh_of_ne_probe s (fun _ _ _ h => Value.noConfusion h) w).trans
      (Construction.result_amid_nil _ () w).symm

theorem transfer_apply {t : Transfer} (hv : ∀ g, t.value.next? = some g → g.slot = none) (byCopy : Bool) (w : World) :
    transfer t byCopy w = (t.construction byCopy).result () w := by
  unfold transfer Transfer.construction Construction.result
  rw [bind_of_ok (recordAll_apply ..)]
  cases byCopy with
  | false => rfl
  | true =>
    rw [if_pos rfl, if_pos rfl]
    cases t.value.copyRefusal? with
    | some refusal =>
      dsimp only
      rw [bind_of_ok (recordAll_apply ..), log_log]
      rfl
    | none => exact shareNext_apply hv (w.log t.events)

theorem quiet_construction_of_value (c : ControlBlock) (v : Value) : Quiet (v.construction c).events := by
  unfold Value.construction
  split
  · exact (quiet_arrival v).append (quiet_unwinding v)
  · split
    · exact (quiet_arrival _).append fun _ => rfl
    · exact quiet_arrival _

theorem quiet_construction_of_transfer {t : Transfer} (ht : Quiet t.events) (byCopy : Bool) :
    Quiet (t.construction byCopy).events := by
  unfold Transfer.construction
  split
  · exact ht.append (quiet_unwinding _)
  · exact ht

/-- A construction builds no other value than its own. -/
theorem quiet_construction (o : Origin) (c : ControlBlock) : Quiet (o.construction c).events := by
  cases o with
  | arguments seed => exact quiet_construction_of_value c _
  | moved seed => exact quiet_construction_of_transfer (quiet_moveTransfer _) _
  | copied seed => exact quiet_construction_of_transfer (quiet_copyTransfer _) _

theorem quiet_placement (o : Origin) (c : ControlBlock) : Quiet (o.placement c).events := by
  unfold Origin.placement
  split
  · exact quiet_nil
  · split
    · have hq := quiet_construction o { c with state := .constructing }
      split <;> exact hq
    · exact quiet_nil

/-- The result of a construction is handed on. -/
theorem Construction.result_bind {α β : Type} {a : Act α} {k : Construction} {x : α} (h : a w = k.result x w)
    (f : α → β) : (a >>= fun y => pure (f y)) w = k.result (f x) w := by
  unfold Construction.result at h ⊢
  cases ht : k.thrown with
  | some t =>
    rw [ht] at h
    exact bind_of_error h
  | none =>
    rw [ht] at h
    exact bind_of_ok h

/-- A construction ends as it would without the attempts of the constructor, which only adds the answers to them. -/
theorem build_apply (hd : w.slots.Distinct) (hs : (w.controlOf s).state ≠ .empty) (hb : Restrained o.onBuild) :
    build s o w = ((o.withoutAttempts.construction (w.controlOf s)).amid
      ((w.controlOf s).refusals o.onBuild)).result (o.seed.value, o.rest) w := by
  cases o with
  | arguments seed => exact Construction.result_bind (buildFresh_apply hd hs hb) _
  | moved seed =>
    have hv : ∀ g, seed.value.moveTransfer.value.next? = some g → g.slot = none := by
      rw [value_moveTransfer]
      exact seed.unlinked
    have hmove := Construction.result_bind (transfer_apply hv seed.value.movesByCopy w) fun _ => seed.value.moveTransfer
    refine (Construction.result_bind hmove fun t => (t.value, t.source)).trans ?_
    rw [value_moveTransfer]
    exact (Construction.result_amid_nil _ _ w).symm
  | copied seed =>
    have hcopy := Construction.result_bind (transfer_apply (t := seed.value.copyTransfer) seed.unlinked true w)
      fun _ => seed.value.copyTransfer
    exact (Construction.result_bind hcopy fun t => (t.value, t.source)).trans (Construction.result_amid_nil _ _ w).symm

/-! ### Slots and handles -/

/-- What comes of placing the value, with the answers to the attempts of its constructor. -/
def Origin.outcome (o : Origin) (c : ControlBlock) : Placement :=
  (o.withoutAttempts.placement c).amid (c.refusals o.onBuild)

/-- The constructor of a new value makes no attempt. -/
theorem Origin.outcome_of_isNew (c : ControlBlock) (hn : o.seed.IsNew) : o.outcome c = o.placement c := by
  unfold outcome
  rw [withoutAttempts_of_isNew hn, c.refusals_of_raises (onBuild_of_isNew hn), Placement.amid_nil]

theorem placeValue_apply (hd : w.slots.Distinct) (hx : (w.slots.find? s).isSome) (hb : Restrained o.onBuild) :
    placeValue s o w =
      match o.outcome (w.controlOf s) with
      | .refused e => .ok (.error e) w
      | .threw t es => .error (.exception t) (w.log es)
      | .built es => .ok (.ok o.rest) (w.built s o.seed.value es) := by
  have hclaim := claim_apply hd s o.type.layout
  unfold placeValue Origin.outcome Origin.placement
  rw [Origin.type_withoutAttempts]
  by_cases hroom : (w.controlOf s).hasRoom o.type.layout.size o.type.layout.alignment = false
  · rw [if_pos hroom] at hclaim ⊢
    exact bind_of_ok hclaim
  rw [if_neg hroom] at hclaim ⊢
  by_cases he : (w.controlOf s).state = .empty
  · rw [if_pos he] at hclaim ⊢
    rw [bind_of_ok hclaim]
    have hclaimed := controlOf_setControl_self (w := w) { w.controlOf s with state := .constructing } hx
    have hbuild := build_apply (s := s) (w := w.setControl s { w.controlOf s with state := .constructing })
      (distinct_setControl hd s _) (by rw [hclaimed]; exact Occupancy.noConfusion) hb
    have hanswers : ({ w.controlOf s with state := .constructing } : ControlBlock).refusals o.onBuild =
        (w.controlOf s).refusals o.onBuild := by
      apply ControlBlock.refusals_congr <;> rfl
    rw [hclaimed, hanswers] at hbuild
    generalize o.withoutAttempts.construction { w.controlOf s with state := .constructing } = k at hbuild ⊢
    unfold Construction.result Construction.amid at hbuild
    cases ht : k.thrown with
    | some t =>
      rw [ht] at hbuild
      refine bind_of_error ?_
      unfold givingBack
      rw [hbuild]
      exact bind_of_ok (abandon_apply hd hx he _)
    | none =>
      rw [ht] at hbuild
      have hgiven : givingBack s (build s o) (w.setControl s { w.controlOf s with state := .constructing }) =
          .ok (o.seed.value, o.rest) ((w.setControl s { w.controlOf s with state := .constructing }).log
            (k.events ++ ((w.controlOf s).refusals o.onBuild).map .refused)) := by
        unfold givingBack
        rw [hbuild]
      exact (bind_of_ok hgiven).trans (bind_of_ok (publish_apply hx o.seed.value _))
  · rw [if_neg he] at hclaim ⊢
    exact bind_of_ok hclaim

/-- The handle of a value that was made in a slot. -/
def madeHandle (family : Family) (elem : Ty) (s : SlotId) (o : Origin) : Handle :=
  ⟨family, elem, some s, .toValue elem o.type s⟩

theorem make_apply (family : Family) (elem : Ty) (hd : w.slots.Distinct) (hx : (w.slots.find? s).isSome)
    (hb : Restrained o.onBuild) :
    make family elem s o w =
      match o.outcome (w.controlOf s) with
      | .refused e => .ok (.error e) w
      | .threw t es => .error (.exception t) (w.log es)
      | .built es => .ok (.ok ⟨madeHandle family elem s o, o.rest⟩) (w.built s o.seed.value es) := by
  have hplace := placeValue_apply hd hx hb
  unfold make
  cases hp : o.outcome (w.controlOf s) with
  | refused e =>
    rw [hp] at hplace
    exact bind_of_ok hplace
  | threw t es =>
    rw [hp] at hplace
    exact bind_of_error hplace
  | built es =>
    rw [hp] at hplace
    rw [bind_of_ok hplace]
    have hocc : ((w.built s o.seed.value es).controlOf s).state = .occupied := by
      rw [controlOf_built hx]
    have hadopt : adopting family elem s (.toValue elem o.type s) (w.built s o.seed.value es) =
        .ok (madeHandle family elem s o) (w.built s o.seed.value es) := by
      unfold adopting
      rw [bind_of_ok (controlNow_apply ..), if_neg (by simp [hocc])]
      rfl
    exact bind_of_ok hadopt

/-- The throwing factory reports a refusal as an exception. -/
theorem makeOrThrow_apply (family : Family) (elem : Ty) (hd : w.slots.Distinct) (hx : (w.slots.find? s).isSome)
    (hb : Restrained o.onBuild) :
    makeOrThrow family elem s o w =
      match o.outcome (w.controlOf s) with
      | .refused e => .error (.exception (.slotError e)) w
      | .threw t es => .error (.exception t) (w.log es)
      | .built es => .ok ⟨madeHandle family elem s o, o.rest⟩ (w.built s o.seed.value es) := by
  have hmake := make_apply family elem hd hx hb
  unfold makeOrThrow
  cases hp : o.outcome (w.controlOf s) with
  | threw t es =>
    rw [hp] at hmake
    exact bind_of_error hmake
  | refused | built =>
    rw [hp] at hmake
    exact bind_of_ok hmake

/-- A value that is refused is refused by an answer, or by an exception of the throwing factory. -/
theorem run_make_apply (into : Holder) (family : Family) (elem : Ty) (hd : w.slots.Distinct)
    (hx : (w.slots.find? s).isSome) (hn : o.seed.IsNew) (throwing : Bool) :
    (HandleStep.make into s family elem o throwing).run w =
      match o.placement (w.controlOf s) with
      | .refused e => if throwing then .error (.exception (.slotError e)) w else .ok (.refused e) w
      | .threw t es => .error (.exception t) (w.log es)
      | .built es => .ok .done ((w.built s o.seed.value es).setHandle into (madeHandle family elem s o)) := by
  have hmake := make_apply family elem hd hx (Origin.restrained_of_isNew hn)
  have horthrow := makeOrThrow_apply family elem hd hx (Origin.restrained_of_isNew hn)
  rw [Origin.outcome_of_isNew _ hn] at hmake horthrow
  unfold HandleStep.run
  dsimp only
  cases throwing with
  | false =>
    rw [if_neg (by simp)]
    cases hp : o.placement (w.controlOf s) with
    | threw t es =>
      rw [hp] at hmake
      exact bind_of_error hmake
    | refused | built =>
      rw [hp] at hmake
      exact bind_of_ok hmake
  | true =>
    rw [if_pos rfl]
    cases hp : o.placement (w.controlOf s) with
    | built es =>
      rw [hp] at horthrow
      exact bind_of_ok (map_of_ok horthrow)
    | refused | threw =>
      rw [hp] at horthrow
      exact bind_of_error (map_of_error horthrow)

end SlotHandles
