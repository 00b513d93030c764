import SlotHandles.Ownership

/-!
# Outcomes of actions

`Ends a w good bad` says that the action `a`, from the world `w`, ends with a result and a world that satisfy `good`,
or with a failure and a world that satisfy `bad`.  A sequence of actions ends as its parts do (`ends_bind`).

The actions that neither fail nor branch have an equation each (`record_apply` and the like), and
`Extends` collects those that only ever append to the trace.
-/

namespace SlotHandles

/-- The action ends well with a result and a world in `good`, or badly with a failure and a world in `bad`. -/
def Ends {α : Type} (a : Act α) (w : World) (good : α → World → Prop) (bad : Failure → World → Prop) : Prop :=
  match a w with
  | .ok x w' => good x w'
  | .error f w' => bad f w'

section

variable {α β : Type} {a : Act α} {w w' : World} {good good' : α → World → Prop} {bad bad' : Failure → World → Prop}

theorem ends_bind {f : α → Act β} {good : β → World → Prop} :
    Ends (a >>= f) w good bad ↔ Ends a w (fun x w' => Ends (f x) w' good bad) bad := by
  unfold Ends
  change (match EStateM.bind a f w with
    | .ok x w' => good x w'
    | .error e w' => bad e w') ↔ _
  unfold EStateM.bind
  cases a w <;> rfl

theorem ends_map {f : α → β} {good : β → World → Prop} :
    Ends (f <$> a) w good bad ↔ Ends a w (fun x w' => good (f x) w') bad := by
  unfold Ends
  change (match EStateM.map f a w with
    | .ok x w' => good x w'
    | .error e w' => bad e w') ↔ _
  unfold EStateM.map
  cases a w <;> rfl

theorem ends_violate {v : Violation} : Ends (violate v : Act α) w good bad ↔ bad (.violation v) w := Iff.rfl

theorem Ends.mono (h : Ends a w good bad) (hg : ∀ x w', good x w' → good' x w') (hb : ∀ f w', bad f w' → bad' f w') :
    Ends a w good' bad' := by
  unfold Ends at h ⊢
  split at h
  · exact hg _ _ h
  · exact hb _ _ h

theorem Ends.and (h : Ends a w good bad) (h' : Ends a w good' bad') :
    Ends a w (fun x w' => good x w' ∧ good' x w') (fun f w' => bad f w' ∧ bad' f w') := by
  unfold Ends at *
  cases e : a w with
  | ok x w' =>
    rw [e] at h h'
    exact ⟨h, h'⟩
  | error f w' =>
    rw [e] at h h'
    exact ⟨h, h'⟩

theorem ends_of_ok {x : α} (e : a w = .ok x w') : Ends a w good bad ↔ good x w' := by
  unfold Ends
  rw [e]

theorem ends_of_error {f : Failure} (e : a w = .error f w') : Ends a w good bad ↔ bad f w' := by
  unfold Ends
  rw [e]

/-- An action ends as any other one that goes the same way. -/
theorem ends_congr {b : Act α} {u : World} (e : a w = b u) : Ends a w good bad ↔ Ends b u good bad := by
  unfold Ends
  rw [e]

/-- An action that cannot end badly returns. -/
theorem Ends.exists_ok (h : Ends a w good bad) (hb : ∀ f w', ¬ bad f w') : ∃ x w', a w = .ok x w' ∧ good x w' := by
  unfold Ends at h
  cases e : a w with
  | ok x w' =>
    rw [e] at h
    exact ⟨x, w', rfl, h⟩
  | error f w' =>
    rw [e] at h
    exact absurd h (hb f w')

theorem Ends.ok {x : α} (h : Ends a w good bad) (e : a w = .ok x w') : good x w' := (ends_of_ok e).mp h

theorem Ends.error {f : Failure} (h : Ends a w good bad) (e : a w = .error f w') : bad f w' := (ends_of_error e).mp h

/-- A part of a sequence that returns can be carried out first. -/
theorem bind_of_ok {f : α → Act β} {x : α} (e : a w = .ok x w') : (a >>= f) w = f x w' := by
  change EStateM.bind a f w = f x w'
  unfold EStateM.bind
  rw [e]

/-- A part of a sequence gives way to one that goes the same way. -/
theorem bind_congr_of_eq {f : α → Act β} {b : Act α} {u : World} (e : a w = b u) : (a >>= f) w = (b >>= f) u := by
  change EStateM.bind a f w = EStateM.bind b f u
  unfold EStateM.bind
  rw [e]

/-- A part of a sequence that fails ends it. -/
theorem bind_of_error {f : α → Act β} {e : Failure} (h : a w = .error e w') : (a >>= f) w = .error e w' := by
  change EStateM.bind a f w = .error e w'
  unfold EStateM.bind
  rw [h]

theorem map_of_ok {f : α → β} {x : α} (e : a w = .ok x w') : (f <$> a) w = .ok (f x) w' := by
  change EStateM.map f a w = .ok (f x) w'
  unfold EStateM.map
  rw [e]

theorem map_of_error {f : α → β} {e : Failure} (h : a w = .error e w') : (f <$> a) w = .error e w' := by
  change EStateM.map f a w = .error e w'
  unfold EStateM.map
  rw [h]

end

/-! ### Actions without a choice -/

def World.log (w : World) (es : List Event) : World := { w with trace := w.trace ++ es }

@[simp] theorem World.trace_log (w : World) (es : List Event) : (w.log es).trace = w.trace ++ es := rfl

@[simp] theorem World.controlOf_log (w : World) (es : List Event) (s : SlotId) :
    (w.log es).controlOf s = w.controlOf s := rfl

@[simp] theorem World.storageOf_log (w : World) (es : List Event) (s : SlotId) :
    (w.log es).storageOf s = w.storageOf s := rfl

theorem recordAll_apply (es : List Event) (w : World) : recordAll es w = .ok () (w.log es) := rfl

theorem record_apply (e : Event) (w : World) : record e w = .ok () (w.log [e]) := rfl

theorem controlNow_apply (s : SlotId) (w : World) : controlNow s w = .ok (w.controlOf s) w := rfl

theorem writeHandle_apply (p : Holder) (h : Handle) (w : World) : writeHandle p h w = .ok () (w.setHandle p h) := rfl

theorem writeObject_apply (r : Region) (v : Value) (w : World) : writeObject r v w = .ok () (w.setObject r v) := rfl

theorem onControl_ok {α : Type} {s : SlotId} {op : ControlBlock.Op α} {w : World} {x : α} {c : ControlBlock}
    (e : op (w.controlOf s) = .ok x c) : onControl s op w = .ok x (w.setControl s c) := by
  unfold onControl
  rw [e]

theorem onControl_error {α : Type} {s : SlotId} {op : ControlBlock.Op α} {w : World} {v : Violation} {c : ControlBlock}
    (e : op (w.controlOf s) = .error v c) : onControl s op w = .error (.violation v) (w.setControl s c) := by
  unfold onControl
  rw [e]

/-! ### The trace only grows -/

/-- Whatever the action does, it appends to the trace. -/
def Extends {α : Type} (a : Act α) : Prop :=
  ∀ w, Ends a w (fun _ w' => w.trace <+: w'.trace) (fun _ w' => w.trace <+: w'.trace)

section

variable {α β : Type}

theorem extends_pure (x : α) : Extends (pure x) := fun _ => List.prefix_rfl

theorem extends_bind {a : Act α} {f : α → Act β} (ha : Extends a) (hf : ∀ x, Extends (f x)) : Extends (a >>= f) := by
  intro w
  rw [ends_bind]
  refine (ha w).mono ?_ fun _ _ h => h
  intro x w' h
  exact (hf x w').mono (fun _ _ h' => h.trans h') fun _ _ h' => h.trans h'

theorem extends_throw (f : Failure) : Extends (throw f : Act α) := fun _ => List.prefix_rfl

theorem extends_recordAll (es : List Event) : Extends (recordAll es) := fun w => List.prefix_append w.trace es

theorem extends_record (e : Event) : Extends (record e) := fun w => List.prefix_append w.trace [e]

theorem extends_onControl (s : SlotId) (op : ControlBlock.Op α) : Extends (onControl s op) := by
  intro w
  unfold Ends onControl
  cases op (w.controlOf s) with
  | ok x c => exact List.prefix_rfl
  | error v c => exact List.prefix_rfl

theorem extends_writeObject (s : SlotId) (v : Value) : Extends (writeObject (.slot s) v) := fun _ => List.prefix_rfl

theorem extends_get : Extends (get : Act World) := fun _ => List.prefix_rfl

theorem extends_forM {l : List β} {f : β → Act Unit} (hf : ∀ x, Extends (f x)) : Extends (l.forM f) := by
  induction l with
  | nil => exact extends_pure ()
  | cons x l ih => exact extends_bind (hf x) fun _ => ih

end

end SlotHandles
