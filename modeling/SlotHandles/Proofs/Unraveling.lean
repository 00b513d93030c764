import SlotHandles.Proofs.Lifetimes

/-!
# How far a cascade goes

Letting go of a handle tears down the value it owns, if nothing else owns that value, and goes on with the handle that
the value stores.  So a cascade runs along a chain of values with one owner each.  It stops where the chain ends, or
at a value with other owners, which loses one of them (`World.Unravels`).

The chain can be read off the world before anything is torn down, if the counts tally with the handles
(`World.Tallies`).  No value stands in it twice, whatever cycles the handles form: a value met again would have two
owners (`World.Tallies.unravels`).  A cascade does along the chain what `World.Unraveled` says
(`World.Unravels.run`), and nothing else.
-/

namespace SlotHandles

open World

variable {w w' w₁ w₂ u : World} {s t : SlotId} {v : Value} {h : Handle} {p : Holder} {M : Multiset Handle}

/-- What a handle owns: the value in a slot, alone or together with other shared handles. -/
structure Stake where
  slot : SlotId
  family : Family
  deriving DecidableEq, Repr

def Handle.stake? (h : Handle) : Option Stake := h.slot.map fun s => ⟨s, h.family⟩

/-- The block of a slot whose last owner has let go. -/
def ControlBlock.bereft (c : ControlBlock) (family : Family) (state : Occupancy) : ControlBlock :=
  { c with state := state, count := family.countLeft, type := none }

namespace World

/-! ### Chains of values with one owner each -/

/-- What the handle in the live value of a slot owns. -/
def stakeIn (w : World) (s : SlotId) : Option Stake := (w.nestedIn s).bind Handle.stake?

/-- From one stake to the next: each value of the chain is alive and has one owner, and stores the next handle. -/
inductive Chain (w : World) : Option Stake → List Stake → Option Stake → Prop
  | here (o : Option Stake) : Chain w o [] o
  | along {k : Stake} {ks : List Stake} {rest : Option Stake} : (w.controlOf k.slot).state = .occupied →
      (w.controlOf k.slot).count = 1 → Chain w (w.stakeIn k.slot) ks rest → Chain w (some k) (k :: ks) rest

/-- The longest such chain.  What is left of the stakes, if anything, is a share in a value that others share. -/
structure Unravels (w : World) (o : Option Stake) (ks : List Stake) (rest : Option Stake) : Prop where
  chain : w.Chain o ks rest
  shared : ∀ k ∈ rest, k.family = .shared ∧ 1 < (w.controlOf k.slot).count.toNat

/-- What the value in a slot announces when its last owner lets go: its end, and its own last words. -/
def obituary (w : World) (k : Stake) : List Event :=
  match w.storageOf k.slot with
  | none => []
  | some v => .destructed k.slot v.type :: v.lastWords ((w.controlOf k.slot).bereft k.family .tearingDown)

/-- The values of a chain were torn down one after another, and one share was given up.  Nothing else happened. -/
structure Unraveled (w : World) (ks : List Stake) (rest : Option Stake) (w' : World) : Prop where
  trace : w'.trace = w.trace ++ ks.flatMap w.obituary
  ended : ∀ k ∈ ks, w'.controlOf k.slot = (w.controlOf k.slot).bereft k.family .empty
  released : ∀ k ∈ rest, w'.controlOf k.slot = { w.controlOf k.slot with count := (w.controlOf k.slot).count - 1 }
  kept : ∀ s, s ∉ ks.map Stake.slot → s ∉ rest.map Stake.slot → w'.controlOf s = w.controlOf s
  stored : ∀ s, s ∉ ks.map Stake.slot → w'.storageOf s = w.storageOf s
  outside : w'.held = w.held ∧ w'.bag = w.bag ∧ w'.values = w.values

variable {k : Stake} {ks : List Stake} {o rest : Option Stake}

theorem stakeIn_congr (hc : (w'.controlOf s).state = (w.controlOf s).state) (hs : w'.storageOf s = w.storageOf s) :
    w'.stakeIn s = w.stakeIn s := by
  unfold stakeIn nestedIn
  rw [hc, hs]

theorem obituary_congr (hc : w'.controlOf k.slot = w.controlOf k.slot)
    (hs : w'.storageOf k.slot = w.storageOf k.slot) : w'.obituary k = w.obituary k := by
  unfold obituary
  rw [hc, hs]

theorem Chain.of_none (hc : w.Chain none ks rest) : ks = [] ∧ rest = none := by
  cases hc
  exact ⟨rfl, rfl⟩

theorem Chain.occupied (hc : w.Chain o ks rest) (hk : k ∈ ks) :
    (w.controlOf k.slot).state = .occupied ∧ (w.controlOf k.slot).count = 1 := by
  induction hc with
  | here => cases hk
  | along ho hcount _ ih =>
    rcases List.mem_cons.mp hk with rfl | hk
    · exact ⟨ho, hcount⟩
    · exact ih hk

/-- A chain is decided by the slots it runs through. -/
theorem Chain.congr (hc : w.Chain o ks rest)
    (hsame : ∀ k ∈ ks, w'.controlOf k.slot = w.controlOf k.slot ∧ w'.stakeIn k.slot = w.stakeIn k.slot) :
    w'.Chain o ks rest := by
  induction hc with
  | here => exact .here _
  | @along k ks rest ho hcount _ ih =>
    obtain ⟨hcontrol, hstake⟩ := hsame k List.mem_cons_self
    refine .along (hcontrol ▸ ho) (hcontrol ▸ hcount) ?_
    rw [hstake]
    exact ih fun k hk => hsame k (List.mem_cons_of_mem _ hk)

theorem Unravels.not_mem (hu : w.Unravels o ks rest) (hk : k ∈ rest) : k.slot ∉ ks.map Stake.slot := by
  intro hmem
  obtain ⟨k', hk', hslot⟩ := List.mem_map.mp hmem
  have hcount := (hu.chain.occupied hk').2
  have hmore := (hu.shared k hk).2
  rw [← hslot, hcount] at hmore
  exact absurd hmore (by decide)

theorem Unravels.none (w : World) : w.Unravels none [] none :=
  ⟨.here Option.none, fun k hk => (Option.not_mem_none k hk).elim⟩

/-- A value with one owner comes first, if the rest unravels without it. -/
theorem Unravels.along (ho : (w.controlOf k.slot).state = .occupied) (hcount : (w.controlOf k.slot).count = 1)
    (hu : (w.setControl k.slot { w.controlOf k.slot with state := .tearingDown }).Unravels (w.stakeIn k.slot) ks rest) :
    w.Unravels (some k) (k :: ks) rest ∧ k.slot ∉ ks.map Stake.slot := by
  generalize hw₁ : w.setControl k.slot { w.controlOf k.slot with state := .tearingDown } = w₁ at hu
  have hself : w₁.controlOf k.slot = { w.controlOf k.slot with state := .tearingDown } :=
    hw₁ ▸ controlOf_setControl_self _ (find?_isSome_of_occupied ho)
  have hother : ∀ t, t ≠ k.slot → w₁.controlOf t = w.controlOf t := fun t ht =>
    hw₁ ▸ controlOf_setControl_of_ne _ _ ht
  have hchain : ∀ k' ∈ ks, k'.slot ≠ k.slot := by
    intro k' hk' e
    have hlive := (hu.chain.occupied hk').1
    rw [e, hself] at hlive
    cases hlive
  have hrest : ∀ k' ∈ rest, k'.slot ≠ k.slot := by
    intro k' hk' e
    have hmore := (hu.shared k' hk').2
    rw [e, hself] at hmore
    dsimp only at hmore
    rw [hcount] at hmore
    exact absurd hmore (by decide)
  refine ⟨⟨.along ho hcount (hu.chain.congr ?_), ?_⟩, ?_⟩
  · intro k' hk'
    have hcontrol := hother _ (hchain k' hk')
    exact ⟨hcontrol.symm, (stakeIn_congr (by rw [hcontrol]) (hw₁ ▸ storageOf_setControl ..)).symm⟩
  · intro k' hk'
    rw [← hother _ (hrest k' hk')]
    exact hu.shared k' hk'
  · intro hmem
    obtain ⟨k', hk', hslot⟩ := List.mem_map.mp hmem
    exact hchain k' hk' hslot

/-! ### The run along a chain -/

/-- The values of a chain have announced their ends, one after another, and no slot was given back yet. -/
structure PartedAlong (w : World) (ks : List Stake) (w₁ : World) : Prop where
  distinct : w₁.slots.Distinct
  trace : w₁.trace = w.trace ++ ks.flatMap w.obituary
  claimed : ∀ k ∈ ks, w₁.controlOf k.slot = (w.controlOf k.slot).bereft k.family .tearingDown
  other : ∀ s, s ∉ ks.map Stake.slot → w₁.controlOf s = w.controlOf s ∧ w₁.storageOf s = w.storageOf s
  outside : w₁.held = w.held ∧ w₁.bag = w.bag ∧ w₁.values = w.values

theorem PartedAlong.nil (hd : w.slots.Distinct) : w.PartedAlong [] w :=
  ⟨hd, (List.append_nil _).symm, fun _ hk => (List.not_mem_nil hk).elim, fun _ _ => ⟨rfl, rfl⟩, rfl, rfl, rfl⟩

theorem Parted.along {f : Family} (hparted : w.Parted s v f.countLeft w₁) (hd : w.slots.Distinct)
    (ho : (w.controlOf s).state = .occupied) (hv : w.storageOf s = some v) : w.PartedAlong [⟨s, f⟩] w₁ := by
  have hx := find?_isSome_of_occupied ho
  have hclaimed : (w.claimed s f.countLeft).controlOf s = (w.controlOf s).bereft f .tearingDown :=
    controlOf_setControl_self _ hx
  refine ⟨?_, ?_, ?_, ?_, ?_⟩
  · have hd₁ : (w.claimed s f.countLeft).slots.Distinct := distinct_setControl hd s _
    obtain ⟨u, rfl | rfl, rfl⟩ := hparted
    · exact hd₁
    · exact distinct_setStorage hd₁ s _
  · rw [hparted.trace, hclaimed, List.flatMap_singleton]
    unfold obituary
    dsimp only
    rw [hv]
  · intro k hk
    rw [List.mem_singleton.mp hk]
    exact hparted.controlOf hx
  · intro t ht
    have hts : t ≠ s := by simpa using ht
    obtain ⟨u, rfl | rfl, rfl⟩ := hparted
    · exact ⟨controlOf_setControl_of_ne _ _ hts, storageOf_setControl ..⟩
    · rw [controlOf_log, storageOf_log, controlOf_setStorage, storageOf_setStorage_of_ne _ _ hts]
      exact ⟨controlOf_setControl_of_ne _ _ hts, storageOf_setControl ..⟩
  · obtain ⟨u, rfl | rfl, rfl⟩ := hparted <;> exact ⟨rfl, rfl, rfl⟩

/-- One value after the other. -/
theorem PartedAlong.cons (hk : w.PartedAlong [k] w₁) (hks : w₁.PartedAlong ks w₂) (hn : k.slot ∉ ks.map Stake.slot) :
    w.PartedAlong (k :: ks) w₂ := by
  have hother : ∀ t, t ≠ k.slot → w₁.controlOf t = w.controlOf t ∧ w₁.storageOf t = w.storageOf t := fun t ht =>
    hk.other t (by simpa using ht)
  have hne : ∀ k' ∈ ks, k'.slot ≠ k.slot := fun k' hk' e => hn (e ▸ List.mem_map_of_mem hk')
  refine ⟨hks.distinct, ?_, ?_, ?_, ?_⟩
  · have hsame : ks.flatMap w₁.obituary = ks.flatMap w.obituary := by
      rw [List.flatMap_def, List.flatMap_def]
      refine congrArg _ (List.map_congr_left fun k' hk' => ?_)
      exact obituary_congr (hother _ (hne k' hk')).1 (hother _ (hne k' hk')).2
    rw [hks.trace, hk.trace, hsame, List.append_assoc, List.flatMap_singleton, List.flatMap_cons]
  · intro k' hk'
    rcases List.mem_cons.mp hk' with rfl | hk'
    · exact (hks.other _ hn).1.trans (hk.claimed _ (List.mem_singleton_self _))
    · rw [hks.claimed k' hk', (hother _ (hne k' hk')).1]
  · intro t ht
    rw [List.map_cons, List.mem_cons, not_or] at ht
    obtain ⟨hcontrol, hstored⟩ := hks.other t ht.2
    exact ⟨hcontrol.trans (hother t ht.1).1, hstored.trans (hother t ht.1).2⟩
  · obtain ⟨h₁, h₂, h₃⟩ := hk.outside
    obtain ⟨h₁', h₂', h₃'⟩ := hks.outside
    exact ⟨h₁'.trans h₁, h₂'.trans h₂, h₃'.trans h₃⟩

end World

/-- The worlds differ in control blocks at most. -/
structure World.Reblocked (w w' : World) : Prop where
  stored : ∀ s, w'.storageOf s = w.storageOf s
  outside : w'.held = w.held ∧ w'.bag = w.bag ∧ w'.values = w.values
  trace : w'.trace = w.trace

theorem World.Reblocked.refl (w : World) : w.Reblocked w := ⟨fun _ => rfl, ⟨rfl, rfl, rfl⟩, rfl⟩

theorem World.Reblocked.setControl (h : w.Reblocked u) (s : SlotId) (c : ControlBlock) :
    w.Reblocked (u.setControl s c) :=
  ⟨fun t => (storageOf_setControl ..).trans (h.stored t), h.outside, h.trace⟩

/-- Let go of a handle, if there is one. -/
def letGoWith (td : SlotId → Act Unit) (g : Option Handle) : Act Unit :=
  match g with
  | some h => releaseWith td h
  | none => pure ()

/-- Give back the slots of a chain, the last one first. -/
def giveBack : List Stake → Act Unit
  | [] => pure ()
  | k :: ks => do
    giveBack ks
    onControl k.slot ControlBlock.vacate

section

variable {k : Stake} {ks : List Stake} {o rest : Option Stake} {g : Option Handle}

theorem letGoWith_of_none (td : SlotId → Act Unit) (hg : g.bind Handle.stake? = none) :
    letGoWith td g w = .ok () w := by
  cases g with
  | none => rfl
  | some h =>
    have hs : h.slot = none := by simpa [Handle.stake?] using hg
    exact releaseWith_of_empty hs

theorem letGoWith_of_shared (td : SlotId → Act Unit) (hs : h.slot = some s) (hf : h.family = .shared) :
    letGoWith td (some h) = dropWith td s := by
  unfold letGoWith releaseWith
  dsimp only
  rw [hs, hf]
  rfl

/-- A handle behind a stake. -/
theorem exists_of_stake (hg : g.bind Handle.stake? = some k) :
    ∃ h, g = some h ∧ h.slot = some k.slot ∧ h.family = k.family := by
  obtain ⟨h, rfl, hk⟩ := Option.bind_eq_some_iff.mp hg
  obtain ⟨s, hs, rfl⟩ := Option.map_eq_some_iff.mp hk
  exact ⟨h, rfl, hs, rfl⟩

/-- The values of a chain part one after another, then what is left of the stakes is let go of, then the slots are given
back. -/
theorem World.Chain.run (hd : w.slots.Distinct) (hw : w.Housed) (hc : w.Chain o ks rest)
    (hn : (ks.map Stake.slot).Nodup) (hg : g.bind Handle.stake? = o) (depth : Nat) :
    ∃ w₁ g₁, w.PartedAlong ks w₁ ∧ g₁.bind Handle.stake? = rest ∧
      letGoWith (tearDownWithin (ks.length + depth)) g w =
        (letGoWith (tearDownWithin depth) g₁ >>= fun _ => giveBack ks) w₁ := by
  induction ks generalizing w o g with
  | nil =>
    cases hc
    refine ⟨w, g, .nil hd, hg, ?_⟩
    rw [List.length_nil, Nat.zero_add]
    exact (congrFun (bind_pure _) w).symm
  | cons k ks ih =>
    rw [List.map_cons, List.nodup_cons] at hn
    cases hc with
    | along ho hcount hrest =>
    obtain ⟨h, rfl, hs, hf⟩ := exists_of_stake hg
    obtain ⟨v, hv, ht, hp⟩ := hw k.slot ho
    obtain ⟨w₁, hparted, hrun⟩ := releaseWith_last (ks.length + depth) hd hs ho ht hcount hv hp
    have hpk : w.PartedAlong [k] w₁ := by
      rw [hf] at hparted
      exact hparted.along hd ho hv
    have hkept : ∀ t, t ≠ k.slot → w₁.controlOf t = w.controlOf t ∧ w₁.storageOf t = w.storageOf t := fun t ht =>
      hpk.other t (by simpa using ht)
    -- the rest of the chain is still there when the first value has parted
    have hrest₁ : w₁.Chain (w.stakeIn k.slot) ks rest := by
      refine hrest.congr fun k' hk' => ?_
      have hne : k'.slot ≠ k.slot := fun e => hn.1 (e ▸ List.mem_map_of_mem hk')
      obtain ⟨hcontrol, hstored⟩ := hkept _ hne
      exact ⟨hcontrol, stakeIn_congr (by rw [hcontrol]) hstored⟩
    have hhoused : w₁.Housed := by
      intro t hto
      have hne : t ≠ k.slot := by
        rintro rfl
        rw [hpk.claimed k (List.mem_singleton_self k)] at hto
        cases hto
      rw [(hkept t hne).1] at hto ⊢
      rw [(hkept t hne).2]
      exact hw t hto
    have hnext : v.next?.bind Handle.stake? = w.stakeIn k.slot := by
      unfold stakeIn
      rw [nestedIn_of_occupied ho, hv, Option.bind_some]
    obtain ⟨w₂, g₂, hparted₂, hg₂, hrun₂⟩ := ih hpk.distinct hhoused hrest₁ hn.2 hnext
    refine ⟨w₂, g₂, hpk.cons hparted₂ hn.1, hg₂, ?_⟩
    have hfirst : letGoWith (tearDownWithin ((k :: ks).length + depth)) (some h) w =
        (letGoWith (tearDownWithin (ks.length + depth)) v.next? >>= fun _ =>
          onControl k.slot ControlBlock.vacate) w₁ := by
      rw [List.length_cons, Nat.add_right_comm]
      exact hrun
    rw [hfirst, bind_congr_of_eq hrun₂, bind_assoc]
    rfl

/-- Giving back the slots of a chain that were claimed empties them. -/
theorem giveBack_apply (hx : ∀ k ∈ ks, (u.controlOf k.slot).state ≠ .empty) (hn : (ks.map Stake.slot).Nodup) :
    ∃ u', giveBack ks u = .ok () u' ∧ u.Reblocked u' ∧
      (∀ k ∈ ks, u'.controlOf k.slot = { u.controlOf k.slot with state := .empty }) ∧
      ∀ s, s ∉ ks.map Stake.slot → u'.controlOf s = u.controlOf s := by
  induction ks with
  | nil => exact ⟨u, rfl, .refl u, fun _ hk => (List.not_mem_nil hk).elim, fun _ _ => rfl⟩
  | cons k ks ih =>
    rw [List.map_cons, List.nodup_cons] at hn
    obtain ⟨u', hrun, hblocks, hempty, hsame⟩ := ih (fun k hk => hx k (List.mem_cons_of_mem _ hk)) hn.2
    have hk : u'.controlOf k.slot = u.controlOf k.slot := hsame _ hn.1
    have hself := controlOf_setControl_self { u'.controlOf k.slot with state := .empty }
      (find?_isSome_of_state (hk ▸ hx k List.mem_cons_self))
    refine ⟨u'.setControl k.slot { u'.controlOf k.slot with state := .empty }, ?_, hblocks.setControl .., ?_, ?_⟩
    · unfold giveBack
      rw [bind_of_ok hrun]
      exact onControl_ok (ControlBlock.vacate_apply _)
    · intro k' hk'
      rcases List.mem_cons.mp hk' with rfl | hk'
      · rw [hself, hk]
      · have hne : k'.slot ≠ k.slot := fun e => hn.1 (e ▸ List.mem_map_of_mem hk')
        rw [controlOf_setControl_of_ne _ _ hne, hempty k' hk']
    · intro t ht
      rw [List.map_cons, List.mem_cons, not_or] at ht
      rw [controlOf_setControl_of_ne _ _ ht.1, hsame t ht.2]

/-- What is left of the stakes is given up: a share, if anything. -/
theorem letGoWith_share (td : SlotId → Act Unit) (hg : g.bind Handle.stake? = rest)
    (hshared : ∀ k ∈ rest, k.family = .shared ∧ 1 < (w.controlOf k.slot).count.toNat) :
    ∃ w', letGoWith td g w = .ok () w' ∧ w.Reblocked w' ∧
      (∀ k ∈ rest, w'.controlOf k.slot = { w.controlOf k.slot with count := (w.controlOf k.slot).count - 1 }) ∧
      ∀ s, s ∉ rest.map Stake.slot → w'.controlOf s = w.controlOf s := by
  cases rest with
  | none => exact ⟨w, letGoWith_of_none td hg, .refl w, fun _ hk => (Option.not_mem_none _ hk).elim, fun _ _ => rfl⟩
  | some k =>
    obtain ⟨h, rfl, hs, hf⟩ := exists_of_stake hg
    obtain ⟨hfam, hmore⟩ := hshared k rfl
    have h0 : (w.controlOf k.slot).count ≠ 0 := by
      intro h0
      rw [h0] at hmore
      exact absurd hmore (by decide)
    have h1 : (w.controlOf k.slot).count ≠ 1 := by
      intro h1
      rw [h1] at hmore
      exact absurd hmore (by decide)
    refine ⟨w.setControl k.slot { w.controlOf k.slot with count := (w.controlOf k.slot).count - 1 }, ?_,
      (Reblocked.refl w).setControl .., ?_, ?_⟩
    · rw [letGoWith_of_shared td hs (hf.trans hfam), dropWith_apply, if_neg h0, if_neg h1]
    · intro k' hk'
      cases hk'
      exact controlOf_setControl_self _ (find?_isSome_of_count h0)
    · intro t ht
      exact controlOf_setControl_of_ne _ _ fun e => ht (by rw [e]; rfl)

/-- A cascade with room for the chain unravels it, and ends without a report. -/
theorem World.Unravels.run (hu : w.Unravels o ks rest) (hd : w.slots.Distinct) (hw : w.Housed)
    (hn : (ks.map Stake.slot).Nodup) (hg : g.bind Handle.stake? = o) {depth : Nat} (hdepth : ks.length ≤ depth) :
    ∃ w', letGoWith (tearDownWithin depth) g w = .ok () w' ∧ w.Unraveled ks rest w' := by
  obtain ⟨w₁, g₁, hparted, hg₁, hrun⟩ := hu.chain.run hd hw hn hg (depth - ks.length)
  rw [Nat.add_sub_cancel' hdepth] at hrun
  have hrest : ∀ k ∈ rest, w₁.controlOf k.slot = w.controlOf k.slot := fun k hk => (hparted.other _ (hu.not_mem hk)).1
  obtain ⟨w₂, hshare, hblocks, hreleased, hsame₂⟩ :=
    letGoWith_share (tearDownWithin (depth - ks.length)) hg₁ fun k hk => (hrest k hk).symm ▸ hu.shared k hk
  -- the slots of the chain stay claimed until they are given back
  have hclaimed : ∀ k ∈ ks, w₂.controlOf k.slot = (w.controlOf k.slot).bereft k.family .tearingDown := by
    intro k hk
    rw [hsame₂ k.slot, hparted.claimed k hk]
    intro hmem
    obtain ⟨k', hk', hslot⟩ := Option.mem_map.mp hmem
    exact hu.not_mem hk' (hslot ▸ List.mem_map_of_mem hk)
  obtain ⟨w', hback, hblocks', hempty, hsame'⟩ :=
    giveBack_apply (u := w₂) (fun k hk => by rw [hclaimed k hk]; exact Occupancy.noConfusion) hn
  refine ⟨w', ?_, ?_, ?_, ?_, ?_, ?_, ?_⟩
  · rw [hrun, bind_of_ok hshare, hback]
  · rw [hblocks'.trace, hblocks.trace, hparted.trace]
  · intro k hk
    rw [hempty k hk, hclaimed k hk]
    rfl
  · intro k hk
    rw [hsame' _ (hu.not_mem hk), hreleased k hk, hrest k hk]
  · intro t ht hrest'
    rw [hsame' t ht, hsame₂ t hrest', (hparted.other t ht).1]
  · intro t ht
    rw [hblocks'.stored t, hblocks.stored t, (hparted.other t ht).2]
  · obtain ⟨hheld, hbag, hvalues⟩ := hparted.outside
    obtain ⟨hheld₂, hbag₂, hvalues₂⟩ := hblocks.outside
    obtain ⟨hheld', hbag', hvalues'⟩ := hblocks'.outside
    exact ⟨hheld'.trans (hheld₂.trans hheld), hbag'.trans (hbag₂.trans hbag), hvalues'.trans (hvalues₂.trans hvalues)⟩

/-- A chain without repetition has no more values than there are live slots. -/
theorem World.Chain.length_le (hc : w.Chain o ks rest) (hd : w.slots.Distinct) (hn : (ks.map Stake.slot).Nodup) :
    ks.length ≤ w.liveSlots := by
  have hsub : ks.map Stake.slot ⊆ w.occupiedSlots := by
    intro t ht
    obtain ⟨k, hk, rfl⟩ := List.mem_map.mp ht
    exact (mem_occupiedSlots hd).mpr (hc.occupied hk).1
  have hlength := (hn.subperm hsub).length_le
  rwa [List.length_map, length_occupiedSlots] at hlength

theorem World.Unravels.release (hu : w.Unravels h.stake? ks rest) (hd : w.slots.Distinct) (hw : w.Housed)
    (hn : (ks.map Stake.slot).Nodup) : ∃ w', SlotHandles.release h w = .ok () w' ∧ w.Unraveled ks rest w' := by
  obtain ⟨w', hrun, hw'⟩ := hu.run (g := some h) hd hw hn rfl (hu.chain.length_le hd hn)
  exact ⟨w', (release_apply hd h).trans hrun, hw'⟩

end

/-! ### Counts that tally with the handles -/

namespace World

/-- Every handle owns a live value, and the count of its slot is the number of its owners: those at their places, and
those in hand (`moving`). -/
structure Tallies (w : World) (moving : Multiset Handle) : Prop where
  slots : w.slots.Distinct
  held : w.held.Distinct
  values : w.values.Distinct
  housed : w.Housed
  owned : ∀ h ∈ moving + w.handles, ∀ s, h.slot = some s → (w.controlOf s).state = .occupied ∧
    (w.controlOf s).OwnedBy (owners (moving + w.handles) .unique s) (owners (moving + w.handles) .shared s)

theorem Sound.tallies (hw : w.Sound M) : w.Tallies M := by
  refine ⟨hw.balanced.distinct, hw.held, hw.values, hw.housed, ?_⟩
  intro h hh s hs
  unfold handles at hh ⊢
  rw [← add_assoc] at hh ⊢
  have ho := hw.balanced.occupied hh hs
  exact ⟨ho, hw.balanced.owned s ho⟩

theorem owners_cons_of_empty (hs : h.slot = none) (family : Family) (t : SlotId) :
    owners (h ::ₘ M) family t = owners M family t := by
  rw [owners_cons, hs]
  simp

namespace Tallies

/-- The owners stay the same when the handles do, up to empty ones. -/
theorem congr {N : Multiset Handle} (hw : w.Tallies M) (hslots : w'.slots.Distinct) (hheld : w'.held.Distinct)
    (hvalues : w'.values.Distinct) (hhoused : w'.Housed) (hcontrol : ∀ s, w'.controlOf s = w.controlOf s)
    (hh : N + w'.handles = M + w.handles ∨ ∃ e, e.slot = none ∧ N + w'.handles = e ::ₘ (M + w.handles)) :
    w'.Tallies N := by
  refine ⟨hslots, hheld, hvalues, hhoused, ?_⟩
  intro k hk s hs
  rw [hcontrol]
  rcases hh with hh | ⟨e, he, hh⟩
  · rw [hh] at hk ⊢
    exact hw.owned k hk s hs
  · rw [hh] at hk ⊢
    rw [owners_cons_of_empty he, owners_cons_of_empty he]
    rcases Multiset.mem_cons.mp hk with rfl | hk
    · rw [he] at hs
      cases hs
    · exact hw.owned k hk s hs

/-- The handle at a place is taken in hand, and an empty one is left there. -/
theorem lift (hw : w.Tallies M) (hl : w.live? p = some h) : (w.setHandle p h.cleared).Tallies (h ::ₘ M) := by
  have hh := handles_setHandle hw.slots hw.held hw.values hl h.cleared
  obtain ⟨hslots, hheld, hvalues⟩ := distinct_setHandle hw.slots hw.held hw.values p h.cleared
  refine hw.congr hslots hheld hvalues ?_ (fun s => controlOf_setHandle ..) (.inr ⟨h.cleared, rfl, ?_⟩)
  · intro t ho
    rw [controlOf_setHandle] at ho ⊢
    obtain ⟨v, hv, ht, hp⟩ := hw.housed t ho
    rcases storageOf_setHandle hv p h.cleared with hv' | hv'
    · exact ⟨v, hv', ht, hp⟩
    · exact ⟨v.withNext h.cleared, hv', (Value.type_withNext ..).symm ▸ ht, Value.isPassive_withNext.trans hp⟩
  · rw [Multiset.cons_add, ← Multiset.add_cons, hh, Multiset.add_cons]

/-- The program gives up a handle of its own. -/
theorem remove (hw : w.Tallies M) (hp : w.held.find? p = some h) :
    ({ w with held := w.held.remove p } : World).Tallies (h ::ₘ M) := by
  refine hw.congr hw.slots hw.held.remove hw.values hw.housed (fun _ => rfl) (.inl ?_)
  have hroots := roots_remove hw.held hp
  have hnested : ({ w with held := w.held.remove p } : World).nested = w.nested := rfl
  unfold handles
  rw [hnested, ← hroots, Multiset.cons_add, Multiset.cons_add, Multiset.add_cons]

/-- The only owner of a value lets go of it; the handle that the value stores is on its own. -/
theorem strike {c : ControlBlock} (hw : w.Tallies (h ::ₘ M)) (hs : h.slot = some s)
    (hcount : (w.controlOf s).count = 1) (hc : c.state ≠ .occupied) :
    (w.setControl s c).Tallies ((w.nestedIn s).toList + M) := by
  obtain ⟨ho, howned⟩ := hw.owned h (by simp) s hs
  obtain ⟨v, hv, -, -⟩ := hw.housed s ho
  have hself : ((w.setControl s c).controlOf s).state ≠ .occupied := state_setControl_ne_occupied w s hc
  have hall : ((w.nestedIn s).toList : Multiset Handle) + M + (w.setControl s c).handles = M + w.handles := by
    have hn := nested_strike hw.slots ho hv hc
    have hroots : (w.setControl s c).roots = w.roots := rfl
    rw [nestedIn_of_occupied ho, hv, Option.bind_some]
    unfold handles
    rw [hroots, ← hn]
    abel
  rw [Multiset.cons_add] at howned
  refine ⟨distinct_setControl hw.slots s c, hw.held, hw.values, ?_, ?_⟩
  · intro t ht
    have hts : t ≠ s := fun e => hself (e ▸ ht)
    rw [controlOf_setControl_of_ne _ _ hts] at ht ⊢
    rw [storageOf_setControl]
    exact hw.housed t ht
  · intro k hk t hkt
    rw [hall] at hk ⊢
    have hts : t ≠ s := fun e => howned.slot_ne_of_alone hs hcount hk (e ▸ hkt)
    have hk' := hw.owned k (by rw [Multiset.cons_add]; exact Multiset.mem_cons_of_mem hk) t hkt
    rw [Multiset.cons_add, owners_cons_of_ne hs hts, owners_cons_of_ne hs hts] at hk'
    rwa [controlOf_setControl_of_ne _ _ hts]

/-- A slot whose count is not one is shared by the handle with others. -/
theorem shared (hw : w.Tallies (h ::ₘ M)) (hs : h.slot = some s) (hcount : (w.controlOf s).count ≠ 1) :
    h.family = .shared ∧ 1 < (w.controlOf s).count.toNat := by
  obtain ⟨-, howned⟩ := hw.owned h (by simp) s hs
  have hpos : 0 < owners (h ::ₘ M + w.handles) h.family s := owners_pos_iff.mpr ⟨h, by simp, rfl, hs⟩
  have hsum := howned.count
  have hne : (w.controlOf s).count.toNat ≠ 1 := fun e => hcount (UInt32.toNat_inj.mp e)
  cases hf : h.family with
  | unique =>
    rw [hf] at hpos
    rcases howned.alone with ⟨hu, hn⟩ | ⟨hu, -⟩ <;> omega
  | shared =>
    rw [hf] at hpos
    exact ⟨rfl, by omega⟩

/-- What a handle owns unravels to a chain, however the handles are linked, and no slot is met twice. -/
theorem unravels {g : Option Handle} (hw : w.Tallies (g.toList + M)) :
    ∃ ks rest, w.Unravels (g.bind Handle.stake?) ks rest ∧ (ks.map Stake.slot).Nodup := by
  generalize hlive : w.liveSlots = n
  -- each value of the chain is struck out of the world in which the rest of the chain is found
  induction n generalizing w g with
  | zero =>
    cases hk : g.bind Handle.stake? with
    | none => exact ⟨[], none, .none w, List.nodup_nil⟩
    | some k =>
      obtain ⟨h, rfl, hs, -⟩ := exists_of_stake hk
      have hpos := liveSlots_pos (hw.owned h (by simp) k.slot hs).1
      omega
  | succ n ih =>
    cases hk : g.bind Handle.stake? with
    | none => exact ⟨[], none, .none w, List.nodup_nil⟩
    | some k =>
      obtain ⟨h, rfl, hs, hf⟩ := exists_of_stake hk
      have hw' : w.Tallies (h ::ₘ M) := by simpa using hw
      have ho := (hw'.owned h (by simp) k.slot hs).1
      by_cases hcount : (w.controlOf k.slot).count = 1
      · have hidle : ({ w.controlOf k.slot with state := .tearingDown } : ControlBlock).state ≠ .occupied := by simp
        have hl := liveSlots_strike hw.slots ho hidle
        obtain ⟨ks, rest, hu, hn⟩ := ih (hw'.strike hs hcount hidle) (by omega)
        obtain ⟨hu', hnew⟩ := hu.along ho hcount
        exact ⟨k :: ks, rest, hu', List.nodup_cons.mpr ⟨hnew, hn⟩⟩
      · obtain ⟨hfam, hmore⟩ := hw'.shared hs hcount
        refine ⟨[], some k, ⟨.here _, ?_⟩, List.nodup_nil⟩
        rintro _ ⟨⟩
        exact ⟨hf ▸ hfam, hmore⟩

/-- A handle in hand is let go of. -/
theorem release (hw : w.Tallies (h ::ₘ M)) : ∃ ks rest w', w.Unravels h.stake? ks rest ∧ (ks.map Stake.slot).Nodup ∧
    SlotHandles.release h w = .ok () w' ∧ w.Unraveled ks rest w' := by
  obtain ⟨ks, rest, hu, hn⟩ := unravels (g := some h) (M := M) (by simpa using hw)
  obtain ⟨w', hrun, hw'⟩ := Unravels.release hu hw.slots hw.housed hn
  exact ⟨ks, rest, w', hu, hn, hrun, hw'⟩

end Tallies

/-! ### What is destroyed on the way -/

theorem ends_of_quiet {es : List Event} (hq : Quiet es) : es.filterMap Event.ends? = [] := by
  rw [List.filterMap_eq_nil_iff]
  intro e he
  cases e with
  | destructed s t =>
    have hmem : Event.destructed s t ∈ lifeOf s es := mem_lifeOf_destructed.mpr he
    rw [hq s] at hmem
    cases hmem
  | _ => rfl

theorem ends_since_log {es : List Event} (hq : Quiet es) (hw : w.trace <+: w'.trace) :
    ((w'.log es).since w).filterMap Event.ends? = (w'.since w).filterMap Event.ends? := by
  have hnew : (w'.log es).since w' = es := since_eq rfl
  rw [since_trans hw (List.prefix_append ..), hnew, List.filterMap_append, ends_of_quiet hq, List.append_nil]

theorem Unraveled.since (hu : w.Unraveled ks rest w') : w'.since w = ks.flatMap w.obituary := since_eq hu.trace

/-- The values of the chain are destroyed, each once and in their order. -/
theorem Unraveled.ends (hw : w.Housed) (hc : w.Chain o ks rest) (hu : w.Unraveled ks rest w') :
    (w'.since w).filterMap Event.ends? = ks.map Stake.slot := by
  have hone : ∀ k ∈ ks, (w.obituary k).filterMap Event.ends? = [k.slot] := by
    intro k hk
    obtain ⟨v, hv, -, -⟩ := hw k.slot (hc.occupied hk).1
    unfold obituary
    rw [hv]
    dsimp only
    rw [List.filterMap_cons, ends_of_quiet (quiet_lastWords _ v)]
    rfl
  rw [hu.since, List.filterMap_flatMap, List.map_eq_flatMap, List.flatMap_def, List.flatMap_def,
    List.map_congr_left hone]

theorem Unraveled.tearsDown_iff (hw : w.Housed) (hc : w.Chain o ks rest) (hu : w.Unraveled ks rest w') :
    w.TearsDown w' s ↔ s ∈ ks.map Stake.slot := by
  rw [World.tearsDown_iff ⟨_, hu.trace.symm⟩, ← hu.ends hw hc, List.mem_filterMap]
  constructor
  · rintro ⟨t, ht⟩
    exact ⟨.destructed s t, ht, rfl⟩
  · rintro ⟨e, he, hs⟩
    cases e with
    | destructed s' t =>
      cases hs
      exact ⟨t, he⟩
    | _ => cases hs

/-- The handles are left alone whose values were not torn down. -/
theorem Unraveled.live? (hu : w.Unraveled ks rest w') (hp : ∀ k ∈ ks, p ≠ .inside k.slot) : w'.live? p = w.live? p := by
  refine live?_congr hu.outside.1 hu.outside.2.2 ?_
  rintro s rfl
  have hks : s ∉ ks.map Stake.slot := by
    intro hmem
    obtain ⟨k, hk, rfl⟩ := List.mem_map.mp hmem
    exact hp k hk rfl
  refine ⟨?_, hu.stored s hks⟩
  by_cases hrest : s ∈ rest.map Stake.slot
  · obtain ⟨k, hk, rfl⟩ := Option.mem_map.mp hrest
    rw [hu.released k hk]
  · rw [hu.kept s hks hrest]

theorem since_of_trace (h : w₁.trace = w.trace) (u : World) : u.since w₁ = u.since w := by
  unfold since
  rw [h]

/-- The places in the values of the chain are gone, and no others. -/
theorem Unraveled.tornAt_iff {g : Handle} {q : Holder} (hw : (w.setHandle p g).Housed)
    (hc : (w.setHandle p g).Chain o ks rest) (hu : (w.setHandle p g).Unraveled ks rest u) :
    w.TornAt u q ↔ ∃ k ∈ ks, q = .inside k.slot := by
  have htears : ∀ s, w.TearsDown u s ↔ s ∈ ks.map Stake.slot := by
    intro s
    rw [← hu.tearsDown_iff hw hc]
    unfold TearsDown
    rw [trace_setHandle]
  constructor
  · rintro ⟨s, rfl, ht⟩
    obtain ⟨k, hk, rfl⟩ := List.mem_map.mp ((htears s).mp ht)
    exact ⟨k, hk, rfl⟩
  · rintro ⟨k, hk, rfl⟩
    exact ⟨k.slot, rfl, (htears _).mpr (List.mem_map_of_mem hk)⟩

/-- A handle was taken from its place and let go of.  The chain that it led to was torn down, each value once and in
order, and the places in these values are gone. -/
structure ReleasedAt (w : World) (p : Holder) (h : Handle) (ks : List Stake) (rest : Option Stake) (w' : World) :
    Prop where
  unravels : (w.setHandle p h.cleared).Unravels h.stake? ks rest
  distinct : (ks.map Stake.slot).Nodup
  unraveled : (w.setHandle p h.cleared).Unraveled ks rest w'
  ends : (w'.since w).filterMap Event.ends? = ks.map Stake.slot
  torn : ∀ q, w.TornAt w' q ↔ ∃ k ∈ ks, q = .inside k.slot

theorem ReleasedAt.trace (hr : w.ReleasedAt p h ks rest w') : w.trace <+: w'.trace :=
  ⟨_, by rw [hr.unraveled.trace, trace_setHandle]⟩

theorem ReleasedAt.past {q : Holder} (hr : w.ReleasedAt p h ks rest w') (hq : ¬ w.TornAt w' q) :
    ∀ k ∈ ks, q ≠ .inside k.slot := fun k hk e => hq ((hr.torn q).mpr ⟨k, hk, e⟩)

theorem Tallies.releaseAt (hw : w.Tallies M) (hl : w.live? p = some h) :
    ∃ ks rest w', SlotHandles.release h (w.setHandle p h.cleared) = .ok () w' ∧ w.ReleasedAt p h ks rest w' := by
  have hlift := hw.lift hl
  obtain ⟨ks, rest, w', hu, hn, hrun, hw'⟩ := hlift.release
  refine ⟨ks, rest, w', hrun, hu, hn, hw', ?_, fun q => hw'.tornAt_iff hlift.housed hu.chain⟩
  rw [← since_of_trace (trace_setHandle w p h.cleared)]
  exact hw'.ends hlift.housed hu.chain

/-- There is only one way to unravel. -/
theorem Unravels.unique {ks' : List Stake} {rest' : Option Stake} (hu : w.Unravels o ks rest)
    (hu' : w.Unravels o ks' rest') : ks = ks' ∧ rest = rest' := by
  obtain ⟨hc, hshared⟩ := hu
  obtain ⟨hc', hshared'⟩ := hu'
  -- a stake is either passed or left, and its count tells which
  have hstop : ∀ k : Stake, 1 < (w.controlOf k.slot).count.toNat → (w.controlOf k.slot).count = 1 → False := by
    intro k hmore hcount
    rw [hcount] at hmore
    exact absurd hmore (by decide)
  induction hc generalizing ks' with
  | here =>
    cases hc' with
    | here => exact ⟨rfl, rfl⟩
    | @along k _ _ _ hcount _ => exact (hstop k (hshared k rfl).2 hcount).elim
  | @along k _ _ _ hcount _ ih =>
    cases hc' with
    | here => exact (hstop k (hshared' k rfl).2 hcount).elim
    | along _ _ hc' =>
      obtain ⟨rfl, rfl⟩ := ih hshared hc'
      exact ⟨rfl, rfl⟩

/-- In a chain of exclusive handles every value has one owner. -/
theorem Unravels.rest_of_exclusive (hu : w.Unravels o ks rest) (ho : ∀ k ∈ o, k.family = .unique)
    (hks : ∀ k ∈ ks, ∀ h, w.nestedIn k.slot = some h → h.family = .unique) : rest = Option.none := by
  obtain ⟨hc, hshared⟩ := hu
  induction hc with
  | here o =>
    cases o with
    | none => rfl
    | some k => exact absurd ((hshared k rfl).1.symm.trans (ho k rfl)) (by decide)
  | @along k ks rest _ _ _ ih =>
    refine ih ?_ (fun k' hk' => hks k' (List.mem_cons_of_mem _ hk')) hshared
    intro k' hk'
    obtain ⟨h, hn, hs⟩ := Option.bind_eq_some_iff.mp hk'
    obtain ⟨s, -, rfl⟩ := Option.map_eq_some_iff.mp hs
    exact hks k List.mem_cons_self h hn

theorem Unravels.congr (hu : w.Unravels o ks rest)
    (hchain : ∀ k ∈ ks, w'.controlOf k.slot = w.controlOf k.slot ∧ w'.stakeIn k.slot = w.stakeIn k.slot)
    (hrest : ∀ k ∈ rest, w'.controlOf k.slot = w.controlOf k.slot) : w'.Unravels o ks rest :=
  ⟨hu.chain.congr hchain, fun k hk => by rw [hrest k hk]; exact hu.shared k hk⟩

end World

/-! ### Handles that are dropped -/

/-- Resetting a handle of the program at any place, or destroying it, tears down the longest chain of values with one
owner each, in their order, each of them once.  A value that comes next has other owners and loses one of them.  Nothing
else changes, and nothing is reported.  In a chain of exclusive handles no value is left over. -/
theorem drop_unravels_longest_chain {a : SlotId} (hw : w.Tallies 0) (hp : ∀ s, p ≠ .inside s) (hl : w.live? p = some h)
    (hs : h.slot = some a) :
    ∃ ks rest, w.Unravels (some ⟨a, h.family⟩) ks rest ∧ (ks.map Stake.slot).Nodup ∧
      (∃ w', resetHandle p w = .ok () w' ∧ (w.setHandle p h.cleared).Unraveled ks rest w' ∧
        (w'.since w).filterMap Event.ends? = ks.map Stake.slot) ∧
      (p.isOwn → ∃ w', destroyHandle p w = .ok () w' ∧
        ({ w with held := w.held.remove p } : World).Unraveled ks rest w' ∧
        (w'.since w).filterMap Event.ends? = ks.map Stake.slot) ∧
      (h.family = .unique → (∀ k ∈ ks, ∀ g, w.nestedIn k.slot = some g → g.family = .unique) → rest = none) := by
  have hstake : h.stake? = some ⟨a, h.family⟩ := by simp [Handle.stake?, hs]
  have hslots : (w.setHandle p h.cleared).slots = w.slots := slots_setHandle hp h.cleared
  obtain ⟨ks, rest, w', hrun, hu, hn, hw', hends, -⟩ := hw.releaseAt hl
  rw [hstake] at hu
  -- the chain is the same before the handle is taken from its place, since it runs through slots
  have hu₀ : w.Unravels (some ⟨a, h.family⟩) ks rest := by
    refine hu.congr (fun k _ => ⟨(controlOf_setHandle ..).symm, ?_⟩) fun k _ => (controlOf_setHandle ..).symm
    unfold stakeIn
    rw [nestedIn_eq, nestedIn_eq, hslots]
  refine ⟨ks, rest, hu₀, hn, ⟨w', ?_, hw', hends⟩, ?_, ?_⟩
  · rw [resetHandle_of_owner hl fun _ => by simp [hs], hrun]
  · intro hown
    have hheld : w.held.find? p = some h := (live?_own hown w).symm.trans hl
    obtain ⟨ks', rest', u, hu', -, hrun', hu''⟩ := (hw.remove hheld).release
    have hends' := hu''.ends (hw.remove hheld).housed hu'.chain
    rw [hstake] at hu'
    have hsame : w.Unravels (some ⟨a, h.family⟩) ks' rest' := hu'.congr (fun _ _ => ⟨rfl, rfl⟩) fun _ _ => rfl
    obtain ⟨rfl, rfl⟩ := hu₀.unique hsame
    refine ⟨u, ?_, hu'', hends'⟩
    unfold destroyHandle
    rw [bind_of_ok (readHandle_apply hl)]
    exact hrun'
  · intro hf hks
    refine hu₀.rest_of_exclusive ?_ hks
    rintro _ ⟨⟩
    exact hf

/-- The head of the linked pair has one owner, the tail has two. -/
theorem unravels_linkedPair :
    linkedPair.Unravels (some ⟨.numbered 1, .shared⟩) [⟨.numbered 1, .shared⟩] (some ⟨.numbered 0, .shared⟩) := by
  refine ⟨.along rfl rfl (.here _), ?_⟩
  rintro _ ⟨⟩
  exact ⟨rfl, by decide⟩

/-- Without its handle the head is torn down, and the tail loses one of its owners. -/
theorem drop_unravels_longest_chain_linkedPair :
    linkedPair.Tallies 0 ∧ linkedPair.live? (.named "head") = some (nodeHandle (.numbered 1)) ∧
    ∃ w', destroyHandle (.named "head") linkedPair = .ok () w' ∧
      (w'.since linkedPair).filterMap Event.ends? = [.numbered 1] ∧ w'.countOf (.numbered 0) = 1 := by
  have hw : linkedPair.Tallies 0 := (linkedPair_reachable.sound allEmpty_twoSlots).1.tallies
  obtain ⟨ks, rest, hu, -, -, hdestroy, -⟩ :=
    drop_unravels_longest_chain (a := .numbered 1) (p := .named "head") hw (by simp) rfl rfl
  obtain ⟨rfl, rfl⟩ := hu.unique unravels_linkedPair
  obtain ⟨w', hrun, hw', hends⟩ := hdestroy rfl
  refine ⟨hw, rfl, w', hrun, hends, ?_⟩
  unfold World.countOf
  rw [hw'.released _ rfl]
  rfl

end SlotHandles
