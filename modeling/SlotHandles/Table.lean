/-!
# Tables

A finite table is a list of keys with their values, in the order of first insertion; of two entries with one key
the first counts.  Each operation comes with what it does to look-ups.
-/

namespace SlotHandles

abbrev Table (α β : Type) := List (α × β)

namespace Table

variable {α β : Type} [DecidableEq α]

def find? : Table α β → α → Option β
  | [], _ => none
  | (k, v) :: rest, key => if k = key then some v else find? rest key

/-- Give a key a value: in the place of its old value, or at the end. -/
def put : Table α β → α → β → Table α β
  | [], key, value => [(key, value)]
  | (k, v) :: rest, key, value => if k = key then (k, value) :: rest else (k, v) :: put rest key value

def remove (t : Table α β) (key : α) : Table α β := t.filter fun e => e.1 ≠ key

/-- Change the value of a key, if it has one. -/
def adjust (t : Table α β) (key : α) (f : β → β) : Table α β :=
  t.map fun e => if e.1 = key then (e.1, f e.2) else e

def values (t : Table α β) : List β := t.map Prod.snd

@[simp] theorem find?_put_self (t : Table α β) (key : α) (value : β) :
    (t.put key value).find? key = some value := by
  induction t with
  | nil => simp [put, find?]
  | cons e rest ih =>
    unfold put
    split <;> simp_all [find?]

theorem find?_put_of_ne (t : Table α β) {key other : α} (value : β) (h : other ≠ key) :
    (t.put key value).find? other = t.find? other := by
  induction t with
  | nil => simp [put, find?, Ne.symm h]
  | cons e rest ih =>
    unfold put
    split
    · next hk => subst hk; simp [find?, Ne.symm h]
    · simp [find?, ih]

@[simp] theorem find?_remove_self (t : Table α β) (key : α) : (t.remove key).find? key = none := by
  induction t with
  | nil => rfl
  | cons e rest ih =>
    by_cases h : e.1 = key
    · simpa [remove, h] using ih
    · have : (remove (e :: rest) key) = e :: remove rest key := by simp [remove, h]
      rw [this, find?, if_neg h, ih]

theorem find?_remove_of_ne (t : Table α β) {key other : α} (h : other ≠ key) :
    (t.remove key).find? other = t.find? other := by
  induction t with
  | nil => rfl
  | cons e rest ih =>
    by_cases hk : e.1 = key
    · have e1 : (remove (e :: rest) key) = remove rest key := by simp [remove, hk]
      have ho : ¬ e.1 = other := fun he => h (he.symm.trans hk)
      rw [e1, ih, find?, if_neg ho]
    · have e1 : (remove (e :: rest) key) = e :: remove rest key := by simp [remove, hk]
      rw [e1, find?, find?, ih]

theorem find?_adjust_self (t : Table α β) (key : α) (f : β → β) :
    (t.adjust key f).find? key = (t.find? key).map f := by
  induction t with
  | nil => rfl
  | cons e rest ih =>
    by_cases h : e.1 = key
    · simp [adjust, find?, h]
    · simpa [adjust, find?, h] using ih

theorem find?_adjust_of_ne (t : Table α β) {key other : α} (f : β → β) (h : other ≠ key) :
    (t.adjust key f).find? other = t.find? other := by
  induction t with
  | nil => rfl
  | cons e rest ih =>
    by_cases hk : e.1 = key
    · have ho : ¬ e.1 = other := fun he => h (he.symm.trans hk)
      simpa [adjust, find?, hk, ho, Ne.symm h] using ih
    · by_cases ho : e.1 = other
      · simp [adjust, find?, ho, h]
      · simpa [adjust, find?, hk, ho] using ih

end Table

end SlotHandles
