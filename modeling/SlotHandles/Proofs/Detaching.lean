import SlotHandles.Proofs.Unraveling

/-!
# Handles that are let go of where they stand

A reset takes the handle from its place before it lets go of it.  A shared assignment lets go of the old handle while it
still stands at its place, and writes the new one afterwards.

Both tear down the same chain of values, unless the place lies in one of them.  Then the handles form a cycle, and the
chain leads back to the handle that is let go of (`World.Chain.returns`): it is let go of once more, by the value that
stores it, and its slot counts nothing any more (`release_returning`).
-/

namespace SlotHandles

open World

variable {w u u' : World} {s : SlotId} {h e g : Handle} {p q : Holder} {ks : List Stake} {o rest : Option Stake}
  {M : Multiset Handle}

namespace World

/-! ### Chains past a place -/

theorem stakeIn_of_live (hl : w.live? (.inside s) = some h) : w.stakeIn s = h.stake? := by
  have hn : w.nestedIn s = some h := hl
  unfold stakeIn
  rw [hn]
  rfl

theorem stakeIn_setHandle_of_ne (hp : p ≠ .inside s) (g : Handle) : (w.setHandle p g).stakeIn s = w.stakeIn s := by
  have hn : (w.setHandle p g).nestedIn s = w.nestedIn s := live?_setHandle_of_ne (q := .inside s) (Ne.symm hp) g
  unfold stakeIn
  rw [hn]

/-- A handle gives way to another one that owns the same. -/
theorem stakeIn_setHandle_of_stake (hl : w.live? p = some h) (hg : g.stake? = h.stake?) (s : SlotId) :
    (w.setHandle p g).stakeIn s = w.stakeIn s := by
  by_cases hp : p = .inside s
  · subst hp
    rw [stakeIn_of_live (live?_setHandle_self hl g), stakeIn_of_live hl, hg]
  · exact stakeIn_setHandle_of_ne hp g

/-- A chain that does not run through the value at a place does not depend on the handle there. -/
theorem Unravels.past (hu : (w.setHandle p g).Unravels o ks rest) (hp : ∀ k ∈ ks, p ≠ .inside k.slot) :
    w.Unravels o ks rest :=
  hu.congr (fun k hk => ⟨(controlOf_setHandle ..).symm, (stakeIn_setHandle_of_ne (hp k hk) g).symm⟩)
    fun _ _ => (controlOf_setHandle ..).symm

theorem Unravels.replace (hu : w.Unravels o ks rest) (hl : w.live? p = some h) (hg : g.stake? = h.stake?) :
    (w.setHandle p g).Unravels o ks rest :=
  hu.congr (fun k _ => ⟨controlOf_setHandle .., stakeIn_setHandle_of_stake hl hg k.slot⟩)
    fun _ _ => controlOf_setHandle ..

/-- A chain that reaches the place of a handle goes on with that handle, if it still stands there. -/
theorem Chain.returns (hl : w.live? p = some h) (hc : (w.setHandle p h.cleared).Chain o ks rest)
    (hp : ∃ k ∈ ks, p = .inside k.slot) : w.Chain o ks h.stake? := by
  induction hc with
  | here =>
    obtain ⟨k, hk, -⟩ := hp
    cases hk
  | @along k ks rest ho hcount hrest ih =>
    rw [controlOf_setHandle] at ho hcount
    refine .along ho hcount ?_
    by_cases hpk : p = .inside k.slot
    · subst hpk
      have hcleared : h.cleared.stake? = none := rfl
      rw [stakeIn_of_live (live?_setHandle_self hl _), hcleared] at hrest
      rw [hrest.of_none.1, stakeIn_of_live hl]
      exact .here _
    · rw [← stakeIn_setHandle_of_ne hpk h.cleared]
      obtain ⟨k', hk', hp'⟩ := hp
      rcases List.mem_cons.mp hk' with rfl | hk'
      · exact absurd hp' hpk
      · exact ih ⟨k', hk', hp'⟩

/-- Where the same chain was torn down, the same blocks are left. -/
theorem Unraveled.controlOf_eq {v : World} (hu : w.Unraveled ks rest u) (hv : v.Unraveled ks rest u')
    (hsame : ∀ s, v.controlOf s = w.controlOf s) (s : SlotId) : u'.controlOf s = u.controlOf s := by
  by_cases hks : s ∈ ks.map Stake.slot
  · obtain ⟨k, hk, rfl⟩ := List.mem_map.mp hks
    rw [hu.ended k hk, hv.ended k hk, hsame]
  · by_cases hrest : s ∈ rest.map Stake.slot
    · obtain ⟨k, hk, rfl⟩ := Option.mem_map.mp hrest
      rw [hu.released k hk, hv.released k hk, hsame]
    · rw [hu.kept s hks hrest, hv.kept s hks hrest, hsame]

end World

/-! ### The release in place -/

/-- A shared handle in a value of the chain that it keeps alive is let go of a second time. -/
theorem release_returning (hw : w.Tallies M) (hl : w.live? p = some h) (hf : h.family = .shared)
    (hc : (w.setHandle p h.cleared).Chain h.stake? ks rest) (hn : (ks.map Stake.slot).Nodup)
    (hp : ∃ k ∈ ks, p = .inside k.slot) : ∃ u, release h w = .error (.violation .countUnderflow) u := by
  have hc' := hc.returns hl hp
  obtain ⟨w₁, g₁, hparted, hg₁, hrun⟩ :=
    hc'.run (g := some h) hw.slots hw.housed hn rfl (w.liveSlots - ks.length)
  rw [Nat.add_sub_cancel' (hc'.length_le hw.slots hn)] at hrun
  -- the chain starts at the slot of the handle, and comes back to it when it counts nothing any more
  generalize hk : h.stake? = o at hc' hg₁
  cases hc' with
  | here =>
    obtain ⟨k, hk, -⟩ := hp
    cases hk
  | @along k ks rest _ _ _ =>
    obtain ⟨h₁, rfl, hs₁, hf₁⟩ := exists_of_stake hg₁
    have hfam : k.family = .shared := by
      obtain ⟨t, -, rfl⟩ := Option.map_eq_some_iff.mp hk
      exact hf
    have hzero : (w₁.controlOf k.slot).count = 0 := by
      rw [hparted.claimed k List.mem_cons_self]
      unfold ControlBlock.bereft
      rw [hfam]
      rfl
    have hagain := dropWith_apply (tearDownWithin (w.liveSlots - (k :: ks).length)) k.slot w₁
    rw [if_pos hzero, ← letGoWith_of_shared _ hs₁ (hf₁.trans hfam)] at hagain
    exact ⟨_, (release_apply hw.slots h).trans (hrun.trans (bind_of_error hagain))⟩

/-- Two ways from one world: the same values were torn down in the same order, and all slots have the same blocks. -/
structure World.ReleasedAlike (w u u' : World) : Prop where
  ends : (u'.since w).filterMap Event.ends? = (u.since w).filterMap Event.ends?
  blocks : ∀ s, u'.controlOf s = u.controlOf s

namespace World.ReleasedAlike

theorem log {es : List Event} (h : w.ReleasedAlike u u') (hq : Quiet es) (hpre : w.trace <+: u'.trace) :
    w.ReleasedAlike u (u'.log es) := ⟨(ends_since_log hq hpre).trans h.ends, h.blocks⟩

theorem setHandle (h : w.ReleasedAlike u u') (p : Holder) (g : Handle) : w.ReleasedAlike u (u'.setHandle p g) := by
  refine ⟨?_, fun s => (controlOf_setHandle ..).trans (h.blocks s)⟩
  unfold since
  rw [trace_setHandle]
  exact h.ends

end World.ReleasedAlike

/-- The handle at a place is let go of where it stands, off the chain that it unravels to: the outcome is that of the
release of a handle that was taken from its place. -/
theorem release_alike (hw : w.Tallies M) (hu : (w.setHandle p h.cleared).Unravels h.stake? ks rest)
    (hn : (ks.map Stake.slot).Nodup) (hp : ∀ k ∈ ks, p ≠ .inside k.slot) {v : World} (hv : v.Unraveled ks rest u)
    (hvw : ∀ s, v.controlOf s = w.controlOf s) (hends : (u.since w).filterMap Event.ends? = ks.map Stake.slot) :
    ∃ u', release h w = .ok () u' ∧ w.ReleasedAlike u u' ∧ w.trace <+: u'.trace := by
  have hu' := hu.past hp
  obtain ⟨u', hrun, hunraveled⟩ := hu'.release hw.slots hw.housed hn
  refine ⟨u', hrun, ⟨?_, ?_⟩, ⟨_, hunraveled.trace.symm⟩⟩
  · rw [hunraveled.ends hw.housed hu'.chain, hends]
  · exact hv.controlOf_eq hunraveled fun s => (hvw s).symm

/-! ### Resets and assignments of an empty handle -/

/-- The places of the program's own are not in values. -/
theorem not_tornAt_of_own (hown : p.isOwn) : ¬ w.TornAt u p := by
  rintro ⟨s, rfl, -⟩
  cases hown

/-- An empty handle is copied without counting. -/
theorem assignByCopy_of_empty (hp : w.live? p = some h) (hq : w.live? q = some e) (he : e.slot = none) :
    assignByCopy p q w = (do
      release h
      let new ← readHandle q
      writeHandle p (new.convert h.elem)) w := by
  rw [assignByCopy_eq, bind_of_ok (readHandle_apply hq)]
  unfold countShared
  rw [he, bind_of_ok (rfl : (pure () : Act Unit) w = .ok () w), bind_of_ok (readHandle_apply hp)]

/-- The assignment of a copy does what the reset does, or reports that the handle was let go of twice. -/
theorem assignByCopy_empties (hw : w.Tallies M) (hp : w.live? p = some h) (hf : h.family = .shared)
    (hq : w.live? q = some e) (he : e.slot = none) (hr : w.ReleasedAt p h ks rest u) :
    (¬ w.TornAt u p → ∃ u', assignByCopy p q w = .ok () u' ∧ w.ReleasedAlike u u') ∧
    (w.TornAt u p → ∃ u', assignByCopy p q w = .error (.violation .countUnderflow) u') := by
  have hrun := assignByCopy_of_empty hp hq he
  constructor
  · intro hnot
    obtain ⟨u', hrel, halike, hpre⟩ := release_alike hw hr.unravels hr.distinct (hr.past hnot) hr.unraveled
      (fun s => controlOf_setHandle ..) hr.ends
    obtain ⟨es, hquiet, hread⟩ := readHandle_quiet q u'
    rw [bind_of_ok hrel, bind_of_ok hread, writeHandle_apply] at hrun
    exact ⟨_, hrun, (halike.log hquiet hpre).setHandle p _⟩
  · intro htorn
    obtain ⟨u', hrel⟩ := release_returning hw hp hf hr.unravels.chain hr.distinct ((hr.torn p).mp htorn)
    exact ⟨u', hrun.trans (bind_of_error hrel)⟩

/-- So does a moving assignment.  It empties its source first, which owns nothing before and after. -/
theorem assignByMove_empties (hw : w.Tallies M) (hp : w.live? p = some h) (hf : h.family = .shared)
    (hq : w.live? q = some e) (he : e.slot = none) (hne : p ≠ q) (hr : w.ReleasedAt p h ks rest u) :
    (¬ w.TornAt u p → ∃ u', assignByMove p q w = .ok () u' ∧ w.ReleasedAlike u u') ∧
    (w.TornAt u p → ∃ u', assignByMove p q w = .error (.violation .countUnderflow) u') := by
  have hw' := hw.lift hq
  have hp' : (w.setHandle q e.cleared).live? p = some h := (live?_setHandle_of_ne hne _).trans hp
  have hu : ((w.setHandle q e.cleared).setHandle p h.cleared).Unravels h.stake? ks rest := by
    have hempty : e.cleared.stake? = e.stake? := by
      unfold Handle.stake?
      rw [he]
      rfl
    rw [setHandle_comm hq hp (Ne.symm hne)]
    exact hr.unravels.replace ((live?_setHandle_of_ne (Ne.symm hne) _).trans hq) hempty
  have hrun := assignByMove_of_shared hp hf hq hne
  constructor
  · intro hnot
    have htrace := trace_setHandle w q e.cleared
    obtain ⟨u', hrel, halike, -⟩ := release_alike hw' hu hr.distinct (hr.past hnot) hr.unraveled
      (fun s => (controlOf_setHandle ..).trans (controlOf_setHandle ..).symm)
      ((congrArg _ (since_of_trace htrace u)).trans hr.ends)
    have halike' : w.ReleasedAlike u u' := by
      refine ⟨?_, halike.blocks⟩
      rw [← since_of_trace htrace, ← since_of_trace htrace]
      exact halike.ends
    rw [bind_of_ok hrel, writeHandle_apply] at hrun
    exact ⟨_, hrun, halike'.setHandle p _⟩
  · intro htorn
    obtain ⟨u', hrel⟩ := release_returning hw' hp' hf hu.chain hr.distinct ((hr.torn p).mp htorn)
    exact ⟨u', hrun.trans (bind_of_error hrel)⟩

/-- A shared handle is emptied by a reset, or by the assignment of an empty handle, copied or moved.  The same values
are torn down in the same order, all slots are left with the same blocks, and nothing is reported.  Only if the handle
lies in a value that is torn down, which a cycle through the handle kept alive, both assignments are reported, and the
reset is not. -/
theorem emptying_ways_agree_off_cycles (hw : w.Tallies 0) (hp : w.live? p = some h) (hf : h.family = .shared)
    (hq : w.live? q = some e) (he : e.slot = none) (hne : p ≠ q) :
    ∃ u, resetHandle p w = .ok () u ∧
      (¬ w.TornAt u p → ∀ a ∈ [assignByCopy p q, assignByMove p q], ∃ u', a w = .ok () u' ∧ w.ReleasedAlike u u') ∧
      (w.TornAt u p → ∀ a ∈ [assignByCopy p q, assignByMove p q],
        ∃ u', a w = .error (.violation .countUnderflow) u') := by
  obtain ⟨ks, rest, u, hrun, hr⟩ := hw.releaseAt hp
  obtain ⟨hcopy, hcopy'⟩ := assignByCopy_empties hw hp hf hq he hr
  obtain ⟨hmove, hmove'⟩ := assignByMove_empties hw hp hf hq he hne hr
  simp only [List.mem_cons, List.not_mem_nil, or_false, forall_eq_or_imp, forall_eq]
  refine ⟨u, ?_, fun hnot => ⟨hcopy hnot, hmove hnot⟩, fun htorn => ⟨hcopy' htorn, hmove' htorn⟩⟩
  rw [resetHandle_of_owner hp (by rw [hf]; exact fun h => Family.noConfusion h), hrun]

/-! ### A value that keeps itself alive -/

/-- A shared node that stores the only handle to itself.  The program holds an empty handle. -/
def selfOwned : World where
  slots := [(.numbered 0, nodeSlot 1 0 1 (nodeHandle (.numbered 0))), (.numbered 1, ⟨.fresh 64 64, none⟩)]
  held := [(.named "none", .empty .shared (.ofKind .snode))]
  bag := []
  values := []
  trace := [.constructed (.numbered 0) (.single .snode)]

theorem selfOwned_reachable : Reachable twoSlots selfOwned := by
  have hnode : Reachable twoSlots _ :=
    .advance (.make (.named "node") (.numbered 0) .shared (.ofKind .snode) (.arguments (Seed.ofSharedNode 1)) false)
      .start ⟨⟨rfl, rfl⟩, rfl, rfl, rfl, rfl, rfl⟩ rfl rfl
  have hloop : Reachable twoSlots _ :=
    .assign (.assignByCopy (.inside (.numbered 0)) (.named "node")) hnode
      ⟨_, _, rfl, rfl, rfl, rfl, rfl⟩ rfl rfl
  have halone : Reachable twoSlots _ :=
    .advance (.destroy (.named "node")) hloop ⟨rfl, _, rfl⟩ rfl rfl
  exact .advance (.empty (.named "none") .shared (.ofKind .snode)) halone ⟨⟨rfl, rfl⟩, rfl⟩ rfl rfl

theorem tallies_selfOwned : selfOwned.Tallies 0 := (selfOwned_reachable.sound allEmpty_twoSlots).1.tallies

/-- The head of the linked pair is emptied in either way, and the handle of the node that owns itself by a reset
only. -/
theorem emptying_ways_agree_off_cycles_selfOwned :
    (∃ u u', resetHandle (.named "head") linkedPair = .ok () u ∧
      assignByMove (.named "head") (.inside (.numbered 0)) linkedPair = .ok () u' ∧ linkedPair.ReleasedAlike u u') ∧
    ∃ u u', resetHandle (.inside (.numbered 0)) selfOwned = .ok () u ∧
      assignByCopy (.inside (.numbered 0)) (.named "none") selfOwned = .error (.violation .countUnderflow) u' := by
  constructor
  · have hw : linkedPair.Tallies 0 := (linkedPair_reachable.sound allEmpty_twoSlots).1.tallies
    obtain ⟨u, hreset, halike, -⟩ := emptying_ways_agree_off_cycles (p := .named "head") (q := .inside (.numbered 0))
      hw rfl rfl rfl rfl (by simp)
    obtain ⟨u', hmove, h⟩ := halike (not_tornAt_of_own rfl) _ (List.mem_cons_of_mem _ List.mem_cons_self)
    exact ⟨u, u', hreset, hmove, h⟩
  · obtain ⟨u, hreset, -, hreported⟩ := emptying_ways_agree_off_cycles (p := .inside (.numbered 0)) (q := .named "none")
      tallies_selfOwned rfl rfl rfl rfl (by simp)
    have htorn : selfOwned.TornAt u (.inside (.numbered 0)) := by
      cases hreset
      exact ⟨.numbered 0, rfl, .single .snode, _, rfl, List.mem_cons_self⟩
    obtain ⟨u', hcopy⟩ := hreported htorn _ List.mem_cons_self
    exact ⟨u, u', hreset, hcopy⟩

/-- The handle in the node that owns itself can be reset, but not overwritten with an empty one. -/
theorem emptying_ways_differ :
    Reachable twoSlots selfOwned ∧ selfOwned.Tallies 0 ∧
    selfOwned.live? (.inside (.numbered 0)) = some (nodeHandle (.numbered 0)) ∧
    selfOwned.live? (.named "none") = some (.empty .shared (.ofKind .snode)) ∧
    (∃ u, resetHandle (.inside (.numbered 0)) selfOwned = .ok () u ∧ (u.controlOf (.numbered 0)).state = .empty) ∧
    (∃ u, assignByCopy (.inside (.numbered 0)) (.named "none") selfOwned = .error (.violation .countUnderflow) u) ∧
    ∃ u, assignByMove (.inside (.numbered 0)) (.named "none") selfOwned = .error (.violation .countUnderflow) u :=
  ⟨selfOwned_reachable, tallies_selfOwned, rfl, rfl, ⟨_, rfl, rfl⟩, ⟨_, rfl⟩, ⟨_, rfl⟩⟩

end SlotHandles
