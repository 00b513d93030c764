import SlotHandles.Proofs.Detaching
import SlotHandles.Proofs.Extent
import SlotHandles.Proofs.Sharing

/-!
# Assignments along a chain

A handle takes over what another one owns, wherever the two lie, as long as the release of what it owned before destroys
neither of them.

An exclusive target lets go first, and its source is read afterwards (`moveHandle_after_sparing`).  A source in a value
that goes is found empty, so a chain of exclusive handles cannot be shortened by moving its second handle to its first.

A shared target gets its new handle when that was moved or counted, and the old one was let go of where it stands
(`release_displaced`).  Counting fails at the limit of the count.  A copied handle is read once more in the end, when
its value may be gone.
-/

namespace SlotHandles

open World

variable {w w' u : World} {s : SlotId} {h g old : Handle} {p target source : Holder} {ks : List Stake}
  {o rest : Option Stake} {lost M : Multiset Handle} {slots : Table SlotId Slot}

/-! ### Values that keep their contents -/

/-- The value without the handle that it stores. -/
def Value.bare (v : Value) : Value := v.withNext Value.endOfChain

namespace World

/-- What the storage of a slot holds, but for the handle in it. -/
def contentsOf (w : World) (s : SlotId) : Option Value := (w.storageOf s).map Value.bare

theorem contentsOf_setHandle (w : World) (p : Holder) (h : Handle) (s : SlotId) :
    (w.setHandle p h).contentsOf s = w.contentsOf s := by
  unfold contentsOf
  cases hv : w.storageOf s with
  | none =>
    by_cases hp : p = .inside s
    · subst hp
      unfold setHandle
      dsimp only
      rw [hv]
      dsimp only
      rw [hv]
    · rw [storageOf_setHandle_of_ne hp, hv]
  | some v =>
    rcases storageOf_setHandle hv p h with hv' | hv'
    · rw [hv']
    · rw [hv', Option.map_some, Option.map_some]
      unfold Value.bare
      rw [Value.withNext_withNext]

/-- The value in the slot is what it was, but for the handle in it if that is the target or the source. -/
structure KeepsValue (w w' : World) (target source : Holder) (s : SlotId) : Prop where
  contents : w'.contentsOf s = w.contentsOf s
  stored : target ≠ .inside s → source ≠ .inside s → w'.storageOf s = w.storageOf s

theorem KeepsValue.refl (w : World) (target source : Holder) (s : SlotId) : w.KeepsValue w target source s :=
  ⟨rfl, fun _ _ => rfl⟩

theorem KeepsValue.congr (hk : w.KeepsValue u target source s) (h : w'.storageOf s = u.storageOf s) :
    w.KeepsValue w' target source s := by
  refine ⟨Eq.trans ?_ hk.contents, fun ht hs => h.trans (hk.stored ht hs)⟩
  unfold contentsOf
  rw [h]

theorem KeepsValue.setHandle (hk : w.KeepsValue u target source s) (hp : p = target ∨ p = source) (h : Handle) :
    w.KeepsValue (u.setHandle p h) target source s := by
  refine ⟨(contentsOf_setHandle ..).trans hk.contents, fun ht hs => ?_⟩
  have hne : p ≠ .inside s := by
    rcases hp with rfl | rfl
    · exact ht
    · exact hs
  exact (storageOf_setHandle_of_ne hne h).trans (hk.stored ht hs)

end World

/-! ### Exclusive handles -/

/-- The slot of a value with one owner is not where a cascade stops. -/
theorem World.Unravels.not_rest (hu : w.Unravels o ks rest) (hcount : (w.controlOf s).count = 1) :
    s ∉ rest.map Stake.slot := by
  intro hmem
  obtain ⟨k, hk, rfl⟩ := Option.mem_map.mp hmem
  have hmore := (hu.shared k hk).2
  rw [hcount] at hmore
  exact absurd hmore (by decide)

/-- What an exclusive handle owns is not touched by the reset of another handle, if neither of the handles is
destroyed. -/
theorem World.Unraveled.spares (hw : w.Sound M) (hu : u.Sound M) (hl : w.live? p = some h) (hl' : u.live? p = some h)
    (hf : h.family = .unique) (hs : h.slot = some s) (hunravels : w.Unravels o ks rest)
    (hunraveled : (w.setHandle target g).Unraveled ks rest u) :
    u.controlOf s = w.controlOf s ∧ u.storageOf s = (w.setHandle target g).storageOf s := by
  have hcount := hw.balanced.count_of_unique (hw.mem_of_live hl) hf hs
  have hks : s ∉ ks.map Stake.slot := by
    intro hmem
    obtain ⟨k, hk, rfl⟩ := List.mem_map.mp hmem
    have hlive := (hu.refersIn_of_live hl').occupied hs
    rw [hunraveled.ended k hk] at hlive
    cases hlive
  refine ⟨?_, hunraveled.stored s hks⟩
  rw [hunraveled.kept s hks (hunravels.not_rest hcount), controlOf_setHandle]

/-- After the reset of the target an exclusive source is moved as it was before, unless it was destroyed with what it
owned. -/
theorem moveHandle_after_sparing (hw : w.Sound M) (ht : w.live? target = some old) (hs : w.live? source = some h)
    (hf : h.family = .unique) (hne : target ≠ source) (hreset : resetHandle target w = .ok () u)
    (hspared : w.TornAt u source → h.slot = none) (elem : Ty) :
    ∃ es, Quiet es ∧ moveHandle elem source u = .ok (h.convert elem) ((u.log es).setHandle source h.cleared) := by
  by_cases htorn : w.TornAt u source
  · -- an empty handle looks the same when it is found empty
    have hempty := cleared_of_empty (hw.refersIn_of_live hs) (hspared htorn)
    have hfound := handle?_of_tornAt hw ht hs hf hne hreset htorn
    rw [hempty] at hfound
    obtain ⟨es, hq, hread⟩ := readHandle_of_handle? hfound
    refine ⟨es, hq, ?_⟩
    unfold moveHandle
    rw [bind_of_ok hread]
    rfl
  · obtain ⟨-, -, hkeep⟩ := resetHandle_of_ok hw ht hreset
    have hl : u.live? source = some h := by rw [hkeep source h hs htorn, if_neg (Ne.symm hne)]
    refine ⟨[], quiet_nil, ?_⟩
    rw [moveHandle_apply hl, World.log, List.append_nil]

/-- An exclusive handle that is moved to another one passes on what it owns, if the release of what the target owned
destroys neither the target nor a source that owns something.  The values torn down are those of the longest chain with
one owner each.  A value that comes next has other owners and loses one of them. -/
theorem exclusive_assignment_takes_over (hs : AllEmpty slots) (hr : Attained slots w) (ht : w.live? target = some old)
    (hsrc : w.live? source = some h) (ho : old.family = .unique) (hf : h.family = .unique) (hne : target ≠ source) :
    ∃ u, resetHandle target w = .ok () u ∧ (¬ w.TornAt u target → (w.TornAt u source → h.slot = none) →
      ∃ ks rest w', assignByMove target source w = .ok () w' ∧
        w'.live? target = some (h.convert old.elem) ∧ (¬ w.TornAt u source → w'.live? source = some h.cleared) ∧
        (∀ a, h.slot = some a → (w.controlOf a).state = .occupied ∧ w'.controlOf a = w.controlOf a ∧
          w.KeepsValue w' target source a) ∧
        (∀ q, q ≠ target → q ≠ source → (∀ k ∈ ks, q ≠ .inside k.slot) → w'.live? q = w.live? q) ∧
        w.Unravels old.stake? ks rest ∧ (w'.since w).filterMap Event.ends? = ks.map Stake.slot ∧
        ∀ k ∈ rest, w'.controlOf k.slot = { w.controlOf k.slot with count := (w.controlOf k.slot).count - 1 }) := by
  obtain ⟨lost, hw⟩ := (hr.sound hs).1
  obtain ⟨ks, rest, u, hrun, hreleased⟩ := hw.tallies.releaseAt ht
  rw [← resetHandle_apply hw ht] at hrun
  refine ⟨u, hrun, fun htarget hspared => ?_⟩
  obtain ⟨hsound, -⟩ := resetHandle_of_ok hw ht hrun
  obtain ⟨es, hq, hmove⟩ := moveHandle_after_sparing hw ht hsrc hf hne hrun hspared old.elem
  have hassign := assignByMove_of_unique ht ho hne
  rw [bind_of_ok hrun, bind_of_ok hmove, writeHandle_apply] at hassign
  have hunravels := hreleased.unravels.past (hreleased.past htarget)
  have hlive : ∀ q, q ≠ target → (∀ k ∈ ks, q ≠ .inside k.slot) → (u.log es).live? q = w.live? q := fun q hq hks =>
    (hreleased.unraveled.live? hks).trans (live?_setHandle_of_ne hq _)
  have htarget' : (u.log es).live? target = some old.cleared :=
    (hreleased.unraveled.live? (hreleased.past htarget)).trans (live?_setHandle_self ht _)
  have hsource' : ¬ w.TornAt u source → (u.log es).live? source = some h := fun hnot =>
    (hlive source (Ne.symm hne) (hreleased.past hnot)).trans hsrc
  refine ⟨ks, rest, _, hassign, ?_, fun hnot => ?_, fun a ha => ?_, fun q hqt hqs hks => ?_, hunravels, ?_,
    fun k hk => ?_⟩
  · exact live?_setHandle_self ((live?_setHandle_of_ne hne _).trans htarget') _
  · exact (live?_setHandle_of_ne (Ne.symm hne) _).trans (live?_setHandle_self (hsource' hnot) _)
  · have hnot : ¬ w.TornAt u source := fun htorn => by
      rw [hspared htorn] at ha
      cases ha
    obtain ⟨hcontrol, hstored⟩ :=
      hreleased.unraveled.spares hw hsound hsrc (hsource' hnot) hf ha hunravels
    refine ⟨(hw.refersIn_of_live hsrc).occupied ha, ?_, ?_⟩
    · rw [controlOf_setHandle, controlOf_setHandle, controlOf_log, hcontrol]
    · have hreset := (KeepsValue.refl w target source a).setHandle (.inl rfl) old.cleared
      have hlogged := hreset.congr ((storageOf_log u es a).trans hstored)
      exact (hlogged.setHandle (.inr rfl) _).setHandle (.inl rfl) _
  · rw [live?_setHandle_of_ne hqt, live?_setHandle_of_ne hqs, hlive q hqt hks]
  · unfold since
    rw [trace_setHandle, trace_setHandle]
    exact (ends_since_log hq hreleased.trace).trans hreleased.ends
  · rw [controlOf_setHandle, controlOf_setHandle, controlOf_log, hreleased.unraveled.released k hk, controlOf_setHandle]

/-- The exclusive handle to a node. -/
def ownNode (s : SlotId) : Handle := ⟨.unique, .ofKind .node, some s, .object (some (.startOf s))⟩

def ownNodeSlot (address : Nat) (id : Int32) (next : Handle) : Slot :=
  ⟨⟨.occupied, 1, some (.single .node), address, 64⟩, some (.node id next)⟩

/-- Two nodes, each of them with a handle of the program. -/
def exclusivePair : World where
  slots := [(.numbered 0, ownNodeSlot 0 1 (.empty .unique (.ofKind .node))),
    (.numbered 1, ownNodeSlot 64 2 (.empty .unique (.ofKind .node)))]
  held := [(.named "head", ownNode (.numbered 0)), (.named "rest", ownNode (.numbered 1))]
  bag := []
  values := []
  trace := [.constructed (.numbered 0) (.single .node), .constructed (.numbered 1) (.single .node)]

theorem exclusivePair_reachable : Reachable twoSlots exclusivePair := by
  have hhead : Reachable twoSlots _ :=
    .advance (.make (.named "head") (.numbered 0) .unique (.ofKind .node) (.arguments (Seed.ofNode 1)) false)
      .start ⟨⟨rfl, rfl⟩, rfl, rfl, rfl, rfl, rfl⟩ rfl rfl
  exact .advance (.make (.named "rest") (.numbered 1) .unique (.ofKind .node) (.arguments (Seed.ofNode 2)) false)
    hhead ⟨⟨rfl, rfl⟩, rfl, rfl, rfl, rfl, rfl⟩ rfl rfl

/-- The same nodes in a chain: the first one stores the handle to the second. -/
def exclusiveChain : World where
  slots := [(.numbered 0, ownNodeSlot 0 1 (ownNode (.numbered 1))),
    (.numbered 1, ownNodeSlot 64 2 (.empty .unique (.ofKind .node)))]
  held := [(.named "head", ownNode (.numbered 0)), (.named "rest", .empty .unique (.ofKind .node))]
  bag := []
  values := []
  trace := exclusivePair.trace

theorem exclusiveChain_reachable : Reachable twoSlots exclusiveChain :=
  .assign (.assignByMove (.inside (.numbered 0)) (.named "rest")) exclusivePair_reachable
    ⟨_, _, rfl, rfl, rfl, rfl⟩ rfl rfl

/-- A node with an exclusive handle, which stores one of two shared handles to another node. -/
def sharedTail : World where
  slots := [(.numbered 0, nodeSlot 2 0 1 (.empty .shared (.ofKind .snode))),
    (.numbered 1, nodeSlot 1 64 2 (nodeHandle (.numbered 0)))]
  held := [(.named "tail", nodeHandle (.numbered 0)),
    (.named "head", ⟨.unique, .ofKind .snode, some (.numbered 1), .object (some (.startOf (.numbered 1)))⟩),
    (.named "none", .empty .unique (.ofKind .snode))]
  bag := []
  values := []
  trace := linkedPair.trace

theorem sharedTail_reachable : Reachable twoSlots sharedTail := by
  have htail : Reachable twoSlots _ :=
    .advance (.make (.named "tail") (.numbered 0) .shared (.ofKind .snode) (.arguments (Seed.ofSharedNode 1)) false)
      .start ⟨⟨rfl, rfl⟩, rfl, rfl, rfl, rfl, rfl⟩ rfl rfl
  have hhead : Reachable twoSlots _ :=
    .advance (.make (.named "head") (.numbered 1) .unique (.ofKind .snode) (.arguments (Seed.ofSharedNode 2)) false)
      htail ⟨⟨rfl, rfl⟩, rfl, rfl, rfl, rfl, rfl⟩ rfl rfl
  have hnone : Reachable twoSlots _ :=
    .advance (.empty (.named "none") .unique (.ofKind .snode)) hhead ⟨⟨rfl, rfl⟩, rfl⟩ rfl rfl
  exact .assign (.assignByCopy (.inside (.numbered 1)) (.named "tail")) hnone
    ⟨_, _, rfl, rfl, rfl, rfl, rfl⟩ rfl rfl

def fourSlots : Table SlotId Slot := [(.numbered 0, ⟨.fresh 0 64, none⟩), (.numbered 1, ⟨.fresh 64 64, none⟩),
  (.numbered 2, ⟨.fresh 128 64, none⟩), (.numbered 3, ⟨.fresh 192 64, none⟩)]

/-- Two chains of two nodes each. -/
def twoChains : World where
  slots := [(.numbered 0, ownNodeSlot 0 1 (ownNode (.numbered 1))),
    (.numbered 1, ownNodeSlot 64 2 (.empty .unique (.ofKind .node))),
    (.numbered 2, ownNodeSlot 128 3 (ownNode (.numbered 3))),
    (.numbered 3, ownNodeSlot 192 4 (.empty .unique (.ofKind .node)))]
  held := [(.named "first", ownNode (.numbered 0)), (.named "second", ownNode (.numbered 2)),
    (.named "link", .empty .unique (.ofKind .node))]
  bag := []
  values := []
  trace := [.constructed (.numbered 0) (.single .node), .constructed (.numbered 1) (.single .node),
    .constructed (.numbered 2) (.single .node), .constructed (.numbered 3) (.single .node)]

theorem allEmpty_fourSlots : AllEmpty fourSlots := by
  refine ⟨by decide, ?_⟩
  intro e he
  simp only [fourSlots, List.mem_cons, List.not_mem_nil, or_false] at he
  rcases he with rfl | rfl | rfl | rfl <;> rfl

theorem twoChains_reachable : Reachable fourSlots twoChains := by
  have hfirst : Reachable fourSlots _ :=
    .advance (.make (.named "first") (.numbered 0) .unique (.ofKind .node) (.arguments (Seed.ofNode 1)) false)
      .start ⟨⟨rfl, rfl⟩, rfl, rfl, rfl, rfl, rfl⟩ rfl rfl
  have hlink : Reachable fourSlots _ :=
    .advance (.make (.named "link") (.numbered 1) .unique (.ofKind .node) (.arguments (Seed.ofNode 2)) false)
      hfirst ⟨⟨rfl, rfl⟩, rfl, rfl, rfl, rfl, rfl⟩ rfl rfl
  have hlinked : Reachable fourSlots _ :=
    .assign (.assignByMove (.inside (.numbered 0)) (.named "link")) hlink ⟨_, _, rfl, rfl, rfl, rfl⟩ rfl rfl
  have hsecond : Reachable fourSlots _ :=
    .advance (.make (.named "second") (.numbered 2) .unique (.ofKind .node) (.arguments (Seed.ofNode 3)) false)
      hlinked ⟨⟨rfl, rfl⟩, rfl, rfl, rfl, rfl, rfl⟩ rfl rfl
  have hgone : Reachable fourSlots _ :=
    .advance (.destroy (.named "link")) hsecond ⟨rfl, _, rfl⟩ rfl rfl
  have hlink' : Reachable fourSlots _ :=
    .advance (.make (.named "link") (.numbered 3) .unique (.ofKind .node) (.arguments (Seed.ofNode 4)) false)
      hgone ⟨⟨rfl, rfl⟩, rfl, rfl, rfl, rfl, rfl⟩ rfl rfl
  exact .assign (.assignByMove (.inside (.numbered 2)) (.named "link")) hlink' ⟨_, _, rfl, rfl, rfl, rfl⟩ rfl rfl

theorem unravels_twoChains : twoChains.Unravels (ownNode (.numbered 0)).stake?
    [⟨.numbered 0, .unique⟩, ⟨.numbered 1, .unique⟩] none :=
  ⟨.along rfl rfl (.along rfl rfl (.here _)), fun _ hk => (Option.not_mem_none _ hk).elim⟩

theorem unravels_sharedTail :
    sharedTail.Unravels (some ⟨.numbered 1, .unique⟩) [⟨.numbered 1, .unique⟩] (some ⟨.numbered 0, .shared⟩) := by
  refine ⟨.along rfl rfl (.here _), ?_⟩
  rintro _ ⟨⟩
  exact ⟨rfl, by decide⟩

/-- The first chain goes when its handle takes over the rest of the second one from the node that stores it.  Where a
chain leads to a value with another owner, that value stays and loses one of them. -/
theorem exclusive_assignment_takes_over_twoChains :
    (AllEmpty fourSlots ∧ Attained fourSlots twoChains ∧
      twoChains.live? (.named "first") = some (ownNode (.numbered 0)) ∧
      twoChains.live? (.inside (.numbered 2)) = some (ownNode (.numbered 3)) ∧
      ∃ u w', resetHandle (.named "first") twoChains = .ok () u ∧ ¬ twoChains.TornAt u (.named "first") ∧
        ¬ twoChains.TornAt u (.inside (.numbered 2)) ∧
        assignByMove (.named "first") (.inside (.numbered 2)) twoChains = .ok () w' ∧
        w'.live? (.named "first") = some (ownNode (.numbered 3)) ∧
        w'.live? (.inside (.numbered 2)) = some (.empty .unique (.ofKind .node)) ∧
        (w'.controlOf (.numbered 3)).state = .occupied ∧
        w'.storageOf (.numbered 3) = twoChains.storageOf (.numbered 3) ∧
        (w'.since twoChains).filterMap Event.ends? = [.numbered 0, .numbered 1]) ∧
    AllEmpty twoSlots ∧ Attained twoSlots sharedTail ∧
      ∃ w', assignByMove (.named "head") (.named "none") sharedTail = .ok () w' ∧
        (w'.since sharedTail).filterMap Event.ends? = [.numbered 1] ∧
        (w'.controlOf (.numbered 0)).state = .occupied ∧ w'.countOf (.numbered 0) = 1 := by
  have hr := twoChains_reachable.attained
  have hr' := sharedTail_reachable.attained
  refine ⟨?_, allEmpty_twoSlots, hr', ?_⟩
  · obtain ⟨u, hreset, htakes⟩ :=
      exclusive_assignment_takes_over allEmpty_fourSlots hr (show twoChains.live? (.named "first") = _ from rfl)
        (show twoChains.live? (.inside (.numbered 2)) = _ from rfl) rfl rfl (by simp)
    have hspared : ¬ twoChains.TornAt u (.inside (.numbered 2)) := by
      rintro ⟨_, ⟨⟩, htorn⟩
      obtain ⟨t, ht⟩ := htorn.mem_since
      cases hreset
      have hends := List.mem_filterMap.mpr ⟨_, ht, (rfl : Event.ends? (.destructed (.numbered 2) t) = _)⟩
      revert hends
      decide
    obtain ⟨ks, rest, w', hrun, hlive, hleft, hvalue, -, hunravels, hends, -⟩ :=
      htakes (not_tornAt_of_own rfl) fun h => absurd h hspared
    obtain ⟨rfl, rfl⟩ := hunravels.unique unravels_twoChains
    obtain ⟨ho, hsame, hkept⟩ := hvalue (.numbered 3) rfl
    exact ⟨allEmpty_fourSlots, hr, rfl, rfl, u, w', hreset, not_tornAt_of_own rfl, hspared, hrun, hlive, hleft hspared,
      hsame ▸ ho, hkept.stored (by simp) (by simp), hends⟩
  · obtain ⟨u, -, htakes⟩ :=
      exclusive_assignment_takes_over allEmpty_twoSlots hr' (show sharedTail.live? (.named "head") = _ from rfl)
        (show sharedTail.live? (.named "none") = _ from rfl) rfl rfl (by simp)
    obtain ⟨ks, rest, w', hrun, -, -, -, -, hunravels, hends, hrest⟩ :=
      htakes (not_tornAt_of_own rfl) fun h => absurd h (not_tornAt_of_own rfl)
    obtain ⟨rfl, rfl⟩ := hunravels.unique unravels_sharedTail
    have hshared := hrest _ rfl
    refine ⟨w', hrun, hends, ?_, ?_⟩
    · rw [hshared]
      rfl
    · unfold World.countOf
      rw [hshared]
      rfl

/-- An assignment does not tear down all that the target led to, if something of it has another owner.  And it tears
down more than the first node of a chain that is to be popped: the handle in that node is found empty. -/
theorem exclusive_assignment_spares_shared_loses_popped :
    (Reachable twoSlots sharedTail ∧ (sharedTail.live? (.named "head")).bind Handle.slot = some (.numbered 1) ∧
      sharedTail.nestedIn (.numbered 1) = some (nodeHandle (.numbered 0)) ∧
      ∃ w', assignByMove (.named "head") (.named "none") sharedTail = .ok () w' ∧
        (w'.since sharedTail).filterMap Event.ends? = [.numbered 1] ∧
        (w'.controlOf (.numbered 0)).state = .occupied) ∧
    Reachable twoSlots exclusiveChain ∧ exclusiveChain.live? (.named "head") = some (ownNode (.numbered 0)) ∧
      exclusiveChain.live? (.inside (.numbered 0)) = some (ownNode (.numbered 1)) ∧
      ∃ w', assignByMove (.named "head") (.inside (.numbered 0)) exclusiveChain = .ok () w' ∧
        w'.live? (.named "head") = some (.empty .unique (.ofKind .node)) ∧
        (w'.since exclusiveChain).filterMap Event.ends? = [.numbered 0, .numbered 1] :=
  ⟨⟨sharedTail_reachable, rfl, rfl, _, rfl, rfl, rfl⟩, exclusiveChain_reachable, rfl, rfl, _, rfl, rfl, rfl⟩

/-! ### Shared handles -/

theorem Value.not_reads_lastWords (c : ControlBlock) (v : Value) : .readAfterDestruction s ∉ v.lastWords c := by
  cases v with
  | collection item items => cases item <;> simp [Value.lastWords, Value.parting]
  | _ => simp [Value.lastWords, Value.parting]

namespace World

/-- No value reads a handle when it is torn down. -/
theorem Unraveled.not_reads (hu : w.Unraveled ks rest u) : .readAfterDestruction s ∉ u.since w := by
  rw [hu.since]
  intro hmem
  obtain ⟨k, -, hk⟩ := List.mem_flatMap.mp hmem
  unfold obituary at hk
  split at hk
  · cases hk
  · rcases List.mem_cons.mp hk with hk | hk
    · cases hk
    · exact Value.not_reads_lastWords _ _ hk

/-- The handle at the target is the given one.  The value that it names is the one that was in its slot before, and all
live handles to it are counted.  Those values are gone that lost their last live handle, and no others. -/
structure TakesOver (w w' : World) (target source : Holder) (g : Handle) : Prop where
  handle : w'.live? target = some g
  value : ∀ a, g.slot = some a → (w.controlOf a).state = .occupied ∧ w'.typeIn a = w.typeIn a ∧ ¬ w.TearsDown w' a ∧
    w'.countOf a = w'.ownerCount a
  kept : ∀ a, g.slot = some a → w.KeepsValue w' target source a
  ends : ∀ s, w.EndsWithLast w' s

/-- A slot that is occupied before and after was not built anew in one turn. -/
theorem Turn.type_kept (ht : w.Turn w' s) (ho : (w.controlOf s).state = .occupied)
    (ho' : (w'.controlOf s).state = .occupied) : w'.typeIn s = w.typeIn s := by
  rcases ht with ⟨-, htype, -⟩ | ⟨t, he, -, -, -⟩ | ⟨t, -, -, he, -⟩
  · exact htype
  · exact absurd (he.symm.trans ho) (by decide)
  · exact absurd (he.symm.trans ho') (by decide)

/-- A shared handle that is live before and after, up to its type, keeps its value alive in between. -/
theorem Evolves.takesOver (hev : w.Evolves w') (hw : w.Sound lost) (hw' : w'.Sound lost)
    (hlost : ∀ k ∈ lost, k.family = .unique) (hl : w.live? source = some h) (hl' : w'.live? target = some g)
    (hs : g.slot = h.slot) (hf : g.family = .shared)
    (hkept : ∀ a, ¬ w.TearsDown w' a → w.KeepsValue w' target source a) : w.TakesOver w' target source g := by
  have hspared : ∀ a, g.slot = some a → (w'.controlOf a).state = .occupied ∧ ¬ w.TearsDown w' a := fun a ha =>
    have ho := (hw'.refersIn_of_live hl').occupied ha
    ⟨ho, fun ht => hev.idle_of_tearsDown ht ho⟩
  refine ⟨hl', fun a ha => ?_, fun a ha => hkept a (hspared a ha).2, fun s => ?_⟩
  · obtain ⟨ho', hnot⟩ := hspared a ha
    have ho := (hw.refersIn_of_live hl).occupied (hs ▸ ha)
    refine ⟨ho, (hev.slot a).type_kept ho ho', hnot, ?_⟩
    -- a lost handle to the slot would be its only owner
    have hshared := hw'.balanced.shared_count (hw'.mem_of_live hl') hf ha
    have hcount := hw'.ownerCount_of_occupied hlost ho'
    rw [add_assoc, owners_add] at hshared
    omega
  · exact (hev.slot s).endsWithLast_of_lost hw hw' hlost

end World

/-- The old handle of a shared target is let go of where it stands.  The target is spared by this, and ready for the
handle in hand, or it is torn down, and this is reported. -/
theorem release_displaced (hw : w.Sound (g ::ₘ M)) (hl : w.live? target = some old) (ho : old.family = .shared)
    (hf : g.family = old.family) (he : g.elem = old.elem) :
    (∃ ks rest u, release old w = .ok () u ∧ w.Unraveled ks rest u ∧ u.live? target = some old ∧
      (u.setHandle target g).Sound M ∧ w.Sheds u ∧ w.Withers u) ∨
    ∃ f u, release old w = .error f u ∧ w.TornAt u target := by
  obtain ⟨ks, rest, -, hu, hn, -, -⟩ := (hw.tallies.lift hl).release
  by_cases hp : ∃ k ∈ ks, target = .inside k.slot
  · obtain ⟨u, hrun⟩ := release_returning hw.tallies hl ho hu.chain hn hp
    exact .inr ⟨_, u, hrun, (release_settle hw hl hf he).error hrun⟩
  · have hpast : ∀ k ∈ ks, target ≠ .inside k.slot := fun k hk e => hp ⟨k, hk, e⟩
    obtain ⟨u, hrun, hunraveled⟩ := (hu.past hpast).release hw.tallies.slots hw.housed hn
    exact .inl ⟨ks, rest, u, hrun, hunraveled, (hunraveled.live? hpast).trans hl,
      (release_replaced hw hl ho hf he).ok hrun⟩

/-- One more handle is counted, if the count is not at its limit. -/
theorem countShared_ok (hw : w.Sound M) (hl : w.live? p = some h) (hf : h.family = .shared)
    (hroom : ∀ a, h.slot = some a → (w.controlOf a).count ≠ 0xffffffff) :
    ∃ w₁, countShared h w = .ok () w₁ ∧ w₁.Sound (h ::ₘ M) ∧ w.Counts w₁ ∧ w₁.trace = w.trace := by
  unfold countShared
  cases hs : h.slot with
  | none => exact ⟨w, rfl, (Sound.cons_iff_of_empty hs (hw.refersIn_of_live hl)).mpr hw, .refl w, rfl⟩
  | some a =>
    obtain ⟨⟨⟩, _, hrun, rfl, -, hw₁, hcounts⟩ :=
      (hw.addReference (hw.mem_of_live hl) hf hs).exists_ok fun _ _ hmax => hroom a hs hmax.2
    exact ⟨_, hrun, hw₁, hcounts, rfl⟩

/-- A shared source is moved out of its place before anything is torn down. -/
theorem assignByMove_takesOver (hw : w.Sound lost) (hlost : ∀ k ∈ lost, k.family = .unique)
    (ht : w.live? target = some old) (hsrc : w.live? source = some h) (ho : old.family = .shared)
    (hf : h.family = .shared) (hc : Run.convertible old.elem h.elem) :
    (∃ w', assignByMove target source w = .ok () w' ∧ w.TakesOver w' target source (h.convert old.elem) ∧
      ∀ s, .readAfterDestruction s ∉ w'.since w) ∨
    ∃ f u, assignByMove target source w = .error f u ∧ w.TornAt u target := by
  by_cases hne : target = source
  · subst hne
    obtain rfl : old = h := Option.some_inj.mp (ht.symm.trans hsrc)
    have hsame : old.convert old.elem = old := if_pos rfl
    refine .inl ⟨w, assignByMove_self rfl w, ?_, fun s => ?_⟩
    · rw [hsame]
      exact (Calm.refl w).evolves.takesOver hw hw hlost ht ht rfl ho fun a _ => .refl ..
    · rw [since_self]
      exact List.not_mem_nil
  have hrun := assignByMove_of_shared ht ho hsrc hne
  have hcalm := calm_setHandle w source h.cleared
  have htrace := trace_setHandle w source h.cleared
  have ht₁ : (w.setHandle source h.cleared).live? target = some old := (live?_setHandle_of_ne hne _).trans ht
  have hgf : (h.convert old.elem).family = .shared := (Handle.family_convert ..).trans hf
  rcases release_displaced ((hw.lift hsrc).convert hc) ht₁ ho (hgf.trans ho.symm) (Handle.elem_convert ..) with
    ⟨ks, rest, u, hrel, hunraveled, htarget, hu, hsheds, -⟩ | ⟨f, u, hrel, htorn⟩
  · rw [bind_of_ok hrel, writeHandle_apply] at hrun
    have hev : w.Evolves (u.setHandle target (h.convert old.elem)) :=
      (hcalm.trans_evolves hsheds.evolves).trans_calm (calm_setHandle ..)
    refine .inl ⟨_, hrun, ?_, fun s => ?_⟩
    · refine hev.takesOver hw hu hlost hsrc (live?_setHandle_self htarget _) (Handle.slot_convert ..) hgf ?_
      intro a hnot
      have hnot' : ¬ (w.setHandle source h.cleared).TearsDown u a := fun h =>
        hnot (h.widen hcalm.trace (calm_setHandle ..).trace)
      have hmoved := (KeepsValue.refl w target source a).setHandle (.inr rfl) h.cleared
      exact (hmoved.congr (hsheds.kept hnot').2.2).setHandle (.inl rfl) _
    · unfold since
      rw [trace_setHandle, ← htrace]
      exact hunraveled.not_reads
  · exact .inr ⟨f, u, hrun.trans (bind_of_error hrel), htorn.widen hcalm.trace List.prefix_rfl⟩

/-- The source is read once more when the old handle was let go of. -/
theorem readHandle_after_release (hw : w.Sound M) (hsrc : w.live? source = some h) (hf : h.family = .shared)
    (hsheds : w.Sheds u) (hwithers : w.Withers u) :
    ∃ es, Quiet es ∧ readHandle source u = .ok h (u.log es) ∧ (¬ w.TornAt u source → es = []) := by
  by_cases htorn : w.TornAt u source
  · obtain ⟨es, hq, hread⟩ := readHandle_of_handle? (handle?_of_withers hw hsrc hf hsheds hwithers)
    exact ⟨es, hq, hread, fun hnot => absurd htorn hnot⟩
  · refine ⟨[], quiet_nil, ?_, fun _ => rfl⟩
    rw [readHandle_apply ((live?_of_sheds hsheds htorn).trans hsrc), World.log, List.append_nil]

/-- A shared source is counted before anything is torn down, and found as it was afterwards. -/
theorem assignByCopy_takesOver (hw : w.Sound lost) (hlost : ∀ k ∈ lost, k.family = .unique)
    (ht : w.live? target = some old) (hsrc : w.live? source = some h) (ho : old.family = .shared)
    (hf : h.family = .shared) (hc : Run.convertible old.elem h.elem)
    (hroom : ∀ a, h.slot = some a → (w.controlOf a).count ≠ 0xffffffff) :
    (∃ w', assignByCopy target source w = .ok () w' ∧ w.TakesOver w' target source (h.convert old.elem) ∧
      (¬ w.TornAt w' source → ∀ s, .readAfterDestruction s ∉ w'.since w)) ∨
    ∃ f u, assignByCopy target source w = .error f u ∧ w.TornAt u target := by
  obtain ⟨w₁, hcount, hw₁, hcounts, htrace⟩ := countShared_ok hw hsrc hf hroom
  have ht₁ := (hcounts.live? target).trans ht
  have hgf : (h.convert old.elem).family = .shared := (Handle.family_convert ..).trans hf
  have hrun := congrFun (assignByCopy_eq target source) w
  rw [bind_of_ok (readHandle_apply hsrc), bind_of_ok hcount, bind_of_ok (readHandle_apply ht₁)] at hrun
  rcases release_displaced (hw₁.convert hc) ht₁ ho (hgf.trans ho.symm) (Handle.elem_convert ..) with
    ⟨ks, rest, u, hrel, hunraveled, htarget, hu, hsheds, hwithers⟩ | ⟨f, u, hrel, htorn⟩
  · obtain ⟨es, hq, hread, hquiet⟩ :=
      readHandle_after_release hw₁ ((hcounts.live? source).trans hsrc) hf hsheds hwithers
    rw [bind_of_ok hrel, bind_of_ok hread, writeHandle_apply, log_setHandle] at hrun
    have hcalm := (calm_setHandle u target (h.convert old.elem)).trans (calm_log hq)
    have hev := (hcounts.calm.trans_evolves hsheds.evolves).trans_calm hcalm
    refine .inl ⟨_, hrun, ?_, fun hnot s => ?_⟩
    · refine hev.takesOver hw (hu.log es) hlost hsrc (live?_setHandle_self htarget _) (Handle.slot_convert ..) hgf ?_
      intro a hnot
      have hnot' : ¬ w₁.TearsDown u a := fun h => hnot (h.widen hcounts.calm.trace hcalm.trace)
      have hcounted := (KeepsValue.refl w target source a).congr (hcounts.storage a)
      exact ((hcounted.congr (hsheds.kept hnot').2.2).setHandle (.inl rfl) _).congr (storageOf_log ..)
    · have hnot' : ¬ w₁.TornAt u source := fun h => hnot (h.widen hcounts.calm.trace hcalm.trace)
      rw [hquiet hnot', World.log, List.append_nil]
      unfold since
      rw [trace_setHandle, ← htrace]
      exact hunraveled.not_reads
  · exact .inr ⟨f, u, hrun.trans (bind_of_error hrel), htorn.widen hcounts.calm.trace List.prefix_rfl⟩

/-- A shared handle that is moved or copied to another one, wherever it lies, passes on what it owns, if the release of
what the target owned does not destroy the target, and the count of a copied handle is not at its limit.  A moving
assignment reads no handle in a destroyed value, and a copying one does so only if the source is in such a value. -/
theorem shared_assignment_takes_over {st : HandleStep} (hs : AllEmpty slots) (hr : Attained slots w)
    (ht : w.live? target = some old) (hsrc : w.live? source = some h) (ho : old.family = .shared)
    (hf : h.family = .shared) (hc : Run.convertible old.elem h.elem)
    (hst : st = .assignByMove target source ∨
      st = .assignByCopy target source ∧ ∀ a, h.slot = some a → (w.controlOf a).count ≠ 0xffffffff)
    (htarget : ¬ w.TornAt (st.after w) target) :
    ∃ w', st.run w = .ok .done w' ∧ w.TakesOver w' target source (h.convert old.elem) ∧
      (st = .assignByMove target source ∨ ¬ w.TornAt w' source → ∀ s, .readAfterDestruction s ∉ w'.since w) := by
  obtain ⟨⟨lost, hw, hlost⟩, -⟩ := hr.sound_but_lost hs
  have hdone : ∀ {a : Act Unit}, st.run = (do a; return .done) → ∀ {f u}, a w = .error f u → ¬ w.TornAt u target := by
    intro a hrun f u herr
    rw [(HandleStep.outcome_after_of_error ((congrFun hrun w).trans (bind_of_error herr))).2] at htarget
    exact htarget
  rcases hst with rfl | ⟨rfl, hroom⟩
  · rcases assignByMove_takesOver hw hlost ht hsrc ho hf hc with ⟨w', hrun, htakes, hreads⟩ | ⟨f, u, hrun, htorn⟩
    · exact ⟨w', bind_of_ok hrun, htakes, fun _ => hreads⟩
    · exact absurd htorn (hdone rfl hrun)
  · rcases assignByCopy_takesOver hw hlost ht hsrc ho hf hc hroom with ⟨w', hrun, htakes, hreads⟩ | ⟨f, u, hrun, htorn⟩
    · refine ⟨w', bind_of_ok hrun, htakes, fun h => hreads (h.resolve_left ?_)⟩
      exact HandleStep.noConfusion
    · exact absurd htorn (hdone rfl hrun)

/-- The head of the linked pair takes over the tail from the node that goes. -/
theorem shared_assignment_takes_over_linkedPair : AllEmpty twoSlots ∧ Attained twoSlots linkedPair ∧
    linkedPair.live? (.named "head") = some (nodeHandle (.numbered 1)) ∧
    linkedPair.live? (.inside (.numbered 1)) = some (nodeHandle (.numbered 0)) ∧
    ∃ w', (HandleStep.assignByMove (.named "head") (.inside (.numbered 1))).run linkedPair = .ok .done w' ∧
      w'.live? (.named "head") = some (nodeHandle (.numbered 0)) ∧
      w'.countOf (.numbered 0) = w'.ownerCount (.numbered 0) ∧
      w'.storageOf (.numbered 0) = linkedPair.storageOf (.numbered 0) ∧
      ∀ s, .readAfterDestruction s ∉ w'.since linkedPair := by
  have hr := linkedPair_reachable.attained
  obtain ⟨w', hrun, htakes, hreads⟩ :=
    shared_assignment_takes_over allEmpty_twoSlots hr (show linkedPair.live? (.named "head") = _ from rfl)
      (show linkedPair.live? (.inside (.numbered 1)) = _ from rfl) rfl rfl rfl (.inl rfl) (not_tornAt_of_own rfl)
  exact ⟨allEmpty_twoSlots, hr, rfl, rfl, w', hrun, htakes.handle, (htakes.value _ rfl).2.2.2,
    (htakes.kept _ rfl).stored (by simp) (by simp), hreads (.inl rfl)⟩

/-! ### Where copies fail -/

theorem assignByCopy_overflows (target : Holder) (hl : w.live? source = some h) (ha : h.slot = some s)
    (hmax : (w.controlOf s).count = 0xffffffff) :
    assignByCopy target source w = .error (.violation .countOverflow) (w.countedUp s) := by
  unfold assignByCopy
  rw [bind_of_ok (readHandle_apply hl), ha]
  exact bind_of_error (addReference_overflows hmax)

/-- A copying assignment is reported when the count is at its limit, which a program can reach.  And it reads its source
after the value was destroyed that stores it. -/
theorem copying_assignment_overflows_or_reads_destroyed :
    (∃ w u, Reachable twoSlots w ∧ w.live? (.named "tail") = some (nodeHandle (.numbered 0)) ∧
      w.live? (.named "head") = some (nodeHandle (.numbered 1)) ∧
      assignByCopy (.named "tail") (.named "head") w = .error (.violation .countOverflow) u) ∧
    Reachable twoSlots linkedPair ∧ linkedPair.live? (.inside (.numbered 1)) = some (nodeHandle (.numbered 0)) ∧
      ∃ w', assignByCopy (.named "head") (.inside (.numbered 1)) linkedPair = .ok () w' ∧
        .destructed (.numbered 1) (.single .snode) ∈ w'.since linkedPair ∧
        .readAfterDestruction (.numbered 1) ∈ w'.since linkedPair := by
  refine ⟨?_, linkedPair_reachable, rfl, _, rfl, by decide, by decide⟩
  obtain ⟨w, hr, hmax, -, hlive⟩ := linkedPair_reachable.exists_limit allEmpty_twoSlots
    (show linkedPair.live? (.named "head") = _ from rfl) rfl rfl
  have hsrc := hlive (.named "head") _ rfl
  exact ⟨w, _, hr, hlive _ _ rfl, hsrc, assignByCopy_overflows _ hsrc rfl hmax⟩

end SlotHandles
