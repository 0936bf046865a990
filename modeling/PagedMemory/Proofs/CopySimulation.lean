/-
PagedMemory.Proofs.CopySimulation — a copy does what its original does,
until the allocator refuses it a growth.

`Region.Shadows` relates a copy to its original: the same bytes and counts
in an allocation that is no larger.  One action either answers the same on
both and leaves them so, or it is a growth that the original is granted and
for which the allocator refuses the copy room (`Shadows.perform`); it is
never the other way round, because all the room that the copy has the
original has too.

`Session.Follows` says this of whole runs: the two go on together, and
where they part for the first time they part in this way.  What comes after
that step is another matter: the original has spent pages that the copy can
still be granted (`original_refused_after_parting`).
-/
import PagedMemory.Proofs.Headroom

namespace PagedMemory

namespace Region

variable {max : UInt32} {limit : Nat} {delta : UInt32} {k r r' : Region max} {action : Action}

/-! ## A memory in the shadow of another -/

/-- The same memory in an allocation that is no larger. -/
structure Shadows (k r : Region max) : Prop extends SameContents k r where
  capacity_eq : k.capacity = r.capacity
  allocation_le : k.storage.allocation ≤ r.storage.allocation

namespace Shadows

theorem refl (r : Region max) : r.Shadows r := ⟨.refl r, rfl, Nat.le_refl _⟩

theorem of_copy (h : r.WellFormed) : r.copy.Shadows r := ⟨⟨rfl, rfl⟩, rfl, h.covers⟩

theorem copy (h : k.Shadows r) : k.copy.Shadows r.copy where
  toSameContents := h.toSameContents.copy
  capacity_eq := h.capacity_eq
  allocation_le := Nat.le_of_eq (congrArg ByteArray.size h.bytes_eq)

theorem readings_eq (h : k.Shadows r) : k.readings = r.readings := by
  simp only [readings, activeSize, h.pages_eq, h.capacity_eq, h.bytes_eq]

/-! ## Growths -/

theorem target_eq (h : k.Shadows r) :
    k.toBacking.target delta max = r.toBacking.target delta max := by
  rw [Backing.target, Backing.target, h.pages_eq, h.capacity_eq]

/-- All the room that the one has, the other has too. -/
theorem hasRoom (h : k.Shadows r) (hroom : k.toBacking.HasRoom limit delta max) :
    r.toBacking.HasRoom limit delta max := by
  rw [Backing.HasRoom, h.target_eq] at hroom
  exact hroom.imp_left fun hheld => Nat.le_trans hheld h.allocation_le

theorem grown (h : k.Shadows r) (hfits : r.toBacking.Fits delta max) :
    (⟨k.toBacking.grown delta max⟩ : Region max).Shadows ⟨r.toBacking.grown delta max⟩ where
  toSameContents := h.toSameContents.grown
  capacity_eq := h.target_eq
  allocation_le := by
    rw [Backing.allocation_grown (h.fits_iff.mpr hfits), Backing.allocation_grown hfits,
      h.target_eq]
    exact Nat.max_le.mpr ⟨Nat.le_trans h.allocation_le (Nat.le_max_left _ _),
      Nat.le_max_right _ _⟩

/-! ## One action -/

/-- An action that asks for no pages does the same on both. -/
theorem perform_of_still (h : k.Shadows r) (hdelta : action.delta? = none) (limit : Nat) :
    ((action.perform limit).outcome k).1 = ((action.perform limit).outcome r).1 ∧
      ((action.perform limit).outcome k).2.Shadows ((action.perform limit).outcome r).2 := by
  obtain ⟨hk, hanswer⟩ :=
    perform_withReserve k.capacity k.storage.allocation r hdelta limit limit
  have hr := (perform_withReserve r.capacity r.storage.allocation r hdelta limit limit).1
  rw [← h.eq_withReserve] at hk hanswer
  rw [← (refl r).eq_withReserve] at hr
  refine ⟨hanswer fun _ _ => h.capacity_eq, ?_⟩
  rw [hk, hr]
  exact ⟨⟨rfl, rfl⟩, h.capacity_eq, h.allocation_le⟩

/-- One action does the same on both, or it is a growth that the one with the
larger allocation is granted and the other is refused, for want of the pages
that the first one now has. -/
theorem perform (h : k.Shadows r) (limit : Nat) (action : Action) :
    (((action.perform limit).outcome k).1 = ((action.perform limit).outcome r).1 ∧
      ((action.perform limit).outcome k).2.Shadows ((action.perform limit).outcome r).2) ∨
    ∃ delta r', action.delta? = some delta ∧ r.Granted limit delta r' ∧
      k.OutOfMemory limit delta r'.capacity := by
  cases hdelta : action.delta? with
  | none => exact Or.inl (h.perform_of_still hdelta limit)
  | some delta =>
    rw [outcome_growth hdelta, outcome_growth hdelta, outcome_tryGrow, outcome_tryGrow]
    by_cases hfits : r.toBacking.Fits delta max
    · have hfits' := h.fits_iff.mpr hfits
      rw [if_pos hfits, if_pos hfits']
      by_cases hroom' : k.toBacking.HasRoom limit delta max
      · rw [if_pos hroom', if_pos (h.hasRoom hroom'), h.pages_eq]
        exact Or.inl ⟨rfl, h.grown hfits⟩
      · by_cases hroom : r.toBacking.HasRoom limit delta max
        · -- the room is there in the larger allocation alone
          exact Or.inr ⟨delta, ⟨r.toBacking.grown delta max⟩, rfl,
            granted_iff.mpr ⟨hfits, hroom, rfl⟩,
            outOfMemory_iff.mpr ⟨hfits', hroom', h.target_eq.symm⟩⟩
        · rw [if_neg hroom', if_neg hroom, h.target_eq]
          exact Or.inl ⟨rfl, h⟩
    · rw [if_neg hfits, if_neg fun hk => hfits (h.fits_iff.mp hk), h.pages_eq]
      exact Or.inl ⟨rfl, h⟩

end Shadows

namespace Session

variable {s s' t t' : Session max} {step : Step} {entry entry' : Entry} {steps : List Step}
  {entries : List Entry}

/-! ## One step -/

/-- The same limit, and memories each in the shadow of its counterpart. -/
structure Shadows (t s : Session max) : Prop where
  limit_eq : t.limit = s.limit
  regions : List.Forall₂ Region.Shadows t.regions s.regions

/-- The step is a growth that is granted in `s`, and for which the allocator
refuses room in `t`. -/
inductive Parts (t s : Session max) : Step → Entry → Entry → Prop where
  | mk {target : Nat} {action : Action} {delta : UInt32} {k r r' : Region max}
      (hk : t.regions[target]? = some k) (hr : s.regions[target]? = some r)
      (hdelta : action.delta? = some delta) (hgranted : r.Granted s.limit delta r')
      (hrefused : k.OutOfMemory t.limit delta r'.capacity) :
      Parts t s (.act target action)
        ⟨.acted (.ok (action.say (.error (.outOfMemory r'.capacity)))), some k.readings⟩
        ⟨.acted (.ok (action.say (.ok r.pages))), some r'.readings⟩

/-- The step was refused what it asked for. -/
def Step.Refuses : Step → Result → Prop
  | .act _ action, .acted answer => action.Refused answer
  | _, .refused _ => True
  | _, _ => False

theorem Parts.refuses (h : Parts t s step entry' entry) :
    step.Refuses entry'.result ∧ ¬step.Refuses entry.result := by
  cases h with
  | @mk target action delta k r r' hk hr hdelta hgranted hrefused =>
    cases action with
    | grow d =>
      refine ⟨rfl, fun hcode => hgranted.pages_ne ?_⟩
      exact UInt32.toNat_inj.mp (Int.ofNat_inj.mp hcode)
    | tryGrow d => exact ⟨trivial, id⟩
    | _ => cases hdelta

theorem Stepped.limit_eq (h : s.Stepped step entry s') (h' : t.Stepped step entry' t')
    (hlimit : t.limit = s.limit) : t'.limit = s'.limit := by
  cases h <;> cases h' <;> first | exact hlimit | rfl

theorem Entry.Pairs.eq_of_shadows (h : Entry.Pairs (@Region.Shadows max) entry' entry) :
    entry' = entry := by
  have hreadings : entry'.readings.map id = entry.readings.map id :=
    h.map_readings fun _ _ hkr => hkr.readings_eq
  rw [Option.map_id, id, id] at hreadings
  cases entry'
  cases entry
  cases h.result_eq
  cases hreadings
  rfl

/-- Two sessions, one in the shadow of the other, take a step with the same
entry and stay so, or they part. -/
theorem Shadows.stepped (h : t.Shadows s) (hstep : s.Stepped step entry s') :
    (∃ t', t.Stepped step entry t' ∧ t'.Shadows s') ∨
    ∃ entry', t.Stepped step entry' t ∧ Parts t s step entry' entry := by
  rcases hstep.pair Region.Shadows.refl Region.Shadows.copy h.regions rfl
      (fun _ _ => by rw [h.limit_eq]) with
    ⟨entry', t', hstep', hentry, hregions⟩ | ⟨target, action, k, r, rfl, -, hk, hr, hkr⟩
  · obtain rfl := hentry.eq_of_shadows
    exact Or.inl ⟨t', hstep', hstep.limit_eq hstep' h.limit_eq, hregions⟩
  · cases hstep with
    | acted hr₁ =>
      cases hr.symm.trans hr₁
      rcases hkr.perform s.limit action with ⟨hanswer, hafter⟩ | ⟨delta, r', hdelta, hg, hrefused⟩
      · have hstep' : t.Stepped (.act target action) _ _ := .acted hk
        rw [h.limit_eq, hanswer, hafter.readings_eq] at hstep'
        exact Or.inl ⟨_, hstep', rfl, forall₂_set h.regions hafter⟩
      · rw [← h.limit_eq] at hrefused
        rw [hg.outcome hdelta]
        exact Or.inr ⟨_, .of_outOfMemory hk hdelta hrefused, .mk hk hr hdelta hg hrefused⟩

/-! ## Runs -/

/-- The session `t` follows `s`: every step leads both to the same entry and
to sessions of which the one is in the shadow of the other, up to a first
step, if there is one, at which they part. -/
inductive Follows : Session max → Session max → List Step → Prop where
  | ends {t s : Session max} (h : t.Shadows s) : Follows t s []
  | agrees {t t' s s' : Session max} {step : Step} {entry : Entry} {steps : List Step}
      (h : t.Shadows s) (ht : t.step step = some (entry, t')) (hs : s.step step = some (entry, s'))
      (hrest : Follows t' s' steps) : Follows t s (step :: steps)
  | parts {t s s' : Session max} {step : Step} {entry' entry : Entry} {steps : List Step}
      (h : t.Shadows s) (ht : t.step step = some (entry', t)) (hs : s.step step = some (entry, s'))
      (hparts : Parts t s step entry' entry) : Follows t s (step :: steps)

theorem Shadows.follows (h : t.Shadows s) (hrun : s.run steps = some (entries, s')) :
    t.Follows s steps := by
  induction steps generalizing s t entries with
  | nil => exact .ends h
  | cons step steps ih =>
    obtain ⟨entry, s₁, rest, hs, hrest, -⟩ := Steps.run_cons.mp hrun
    rcases h.stepped (step_eq_some_iff.mp hs) with ⟨t₁, ht, h₁⟩ | ⟨entry', ht, hparts⟩
    · exact .agrees h (step_eq_some_iff.mpr ht) hs (ih h₁ hrest)
    · exact .parts h (step_eq_some_iff.mpr ht) hs hparts

/-- As long as the entries have been the same, what `s` is refused `t` is
refused too. -/
theorem Follows.refuses (h : t.Follows s steps) {before after : List Step}
    (hsteps : steps = before ++ step :: after) {first : List Entry} {s₁ s₂ t₁ t₂ : Session max}
    (hs : s.run before = some (first, s₁)) (ht : t.run before = some (first, t₁))
    (hs₂ : s₁.step step = some (entry, s₂)) (ht₂ : t₁.step step = some (entry', t₂))
    (hrefuses : step.Refuses entry.result) : step.Refuses entry'.result := by
  induction h generalizing before first with
  | ends _ => exact absurd hsteps.symm (by simp)
  | agrees _ ht₀ hs₀ _ ih =>
    cases before with
    | nil =>
      cases hsteps
      cases hs
      cases ht
      cases hs₀.symm.trans hs₂
      cases ht₀.symm.trans ht₂
      exact hrefuses
    | cons _ before =>
      cases hsteps
      obtain ⟨_, _, rest, hs₁, hsrest, rfl⟩ := Steps.run_cons.mp hs
      obtain ⟨_, _, _, ht₁, htrest, hfirst⟩ := Steps.run_cons.mp ht
      cases hfirst
      cases hs₀.symm.trans hs₁
      cases ht₀.symm.trans ht₁
      exact ih rfl hsrest htrest
  | parts _ ht₀ hs₀ hparts =>
    cases before with
    | nil =>
      cases hsteps
      cases hs
      cases hs₀.symm.trans hs₂
      exact absurd hrefuses hparts.refuses.2
    | cons _ before =>
      -- the entries of the step at which the two part are not the same
      cases hsteps
      obtain ⟨_, _, rest, hs₁, -, rfl⟩ := Steps.run_cons.mp hs
      obtain ⟨_, _, _, ht₁, -, hfirst⟩ := Steps.run_cons.mp ht
      cases hfirst
      cases hs₀.symm.trans hs₁
      cases ht₀.symm.trans ht₁
      exact absurd hparts.refuses.1 hparts.refuses.2

/-- Any memory of any run, and its copy, put through the same steps under the
same limits: the copy follows its original, and up to the step at which
they part, that step included, the original is refused nothing that the
copy is granted. -/
theorem copy_follows_original {limit₀ limit : Nat} {history : List Step} {told : List Entry}
    {s₀ : Session max} {i : Nat} {r : Region max}
    (hreached : (⟨limit₀, []⟩ : Session max).run history = some (told, s₀))
    (hr : s₀.regions[i]? = some r)
    (hrun : (⟨limit, [r]⟩ : Session max).run steps = some (entries, s')) :
    (⟨limit, [r.copy]⟩ : Session max).Follows ⟨limit, [r]⟩ steps ∧
    ∀ before step after, steps = before ++ step :: after → ∀ first s₁ t₁ entry s₂ entry' t₂,
      (⟨limit, [r]⟩ : Session max).run before = some (first, s₁) →
      (⟨limit, [r.copy]⟩ : Session max).run before = some (first, t₁) →
      s₁.step step = some (entry, s₂) → t₁.step step = some (entry', t₂) →
      step.Refuses entry.result → step.Refuses entry'.result := by
  have hwf := run_wellFormed hreached wellFormed_none r (List.mem_of_getElem? hr)
  have hshadows : (⟨limit, [r.copy]⟩ : Session max).Shadows ⟨limit, [r]⟩ :=
    ⟨rfl, .cons (.of_copy hwf) .nil⟩
  have hfollows := hshadows.follows hrun
  refine ⟨hfollows, ?_⟩
  intro before step after hsteps first s₁ t₁ entry s₂ entry' t₂ hs ht hs₂ ht₂
  exact hfollows.refuses hsteps hs ht hs₂ ht₂

/-- A memory with pages in reserve and its copy, where the allocator grants
nothing: the store goes through on both, and the growth only on the original. -/
theorem copy_follows_original_in_four_pages :
    let history : List Step := [.new, .act 0 (.grow 1)]
    let steps : List Step := [.act 0 (.store .w32 0 7), .act 0 (.tryGrow 1)]
    ∃ told s₀ r entries s',
      (⟨defaultLimit, []⟩ : Session 4).run history = some (told, s₀) ∧
      s₀.regions[0]? = some r ∧
      (⟨0, [r]⟩ : Session 4).run steps = some (entries, s') ∧
      (⟨0, [r.copy]⟩ : Session 4).Follows ⟨0, [r]⟩ steps := by
  intro history steps
  have hgrow : (⟨defaultLimit, [Region.new]⟩ : Session 4).Stepped (.act 0 (.grow 1)) _ _ :=
    .acted rfl
  have hreached : (⟨defaultLimit, []⟩ : Session 4).run history = _ :=
    Stepped.new.run_cons (hgrow.run_cons rfl)
  have hnames : ∀ step ∈ steps, step.Names 1 := by simp [steps, Step.Names]
  obtain ⟨entries, s', hrun⟩ := exists_run (s := (⟨0, [_]⟩ : Session 4)) hnames
  exact ⟨_, _, _, entries, s', hreached, rfl, hrun,
    (copy_follows_original (i := 0) hreached rfl hrun).1⟩

/-- Past the step at which the two part the original can be refused what its
copy is granted.  Of four pages that are declared one is committed and all are
reserved.  Two more are granted to the original alone, as its allocation holds
them already; once the allocator grants everything again, two more are beyond
the ceiling for the original, and the copy is granted them. -/
theorem original_refused_after_parting :
    let history : List Step := [.new, .act 0 (.grow 1)]
    let before : List Step := [.setLimit (some 0), .act 0 (.tryGrow 2), .setLimit none]
    let step : Step := .act 0 (.tryGrow 2)
    ∃ told s₀ r first s₁ entry s₂ first' t₁ entry' t₂,
      (⟨defaultLimit, []⟩ : Session 4).run history = some (told, s₀) ∧
      s₀.regions[0]? = some r ∧
      (⟨defaultLimit, [r]⟩ : Session 4).run before = some (first, s₁) ∧
      (⟨defaultLimit, [r.copy]⟩ : Session 4).run before = some (first', t₁) ∧
      s₁.step step = some (entry, s₂) ∧ t₁.step step = some (entry', t₂) ∧
      entry.result = .acted (.ok (.grown (.error (.exceedsCeiling 5 4)))) ∧
      entry'.result = .acted (.ok (.grown (.ok 1))) ∧
      step.Refuses entry.result ∧ ¬step.Refuses entry'.result := by
  intro history before step
  have hmax : (4 : UInt32) ≤ pageCeiling := by decide
  obtain ⟨r, hgranted, hwf, hpages, htarget, hallocation⟩ :
      ∃ r : Region 4, Granted defaultLimit 1 Region.new r ∧ _ :=
    exists_granted_new (by decide) (by decide)
  have hcapacity : r.capacity = 4 :=
    htarget.trans (UInt32.toNat_inj.mp (toNat_target_new (by decide) (by decide)))
  have hwithin : r.Within 2 := by
    rw [Within, hpages, hcapacity]
    decide
  -- the original has the pages that it reserves, and its copy has still to ask for them
  have hreserved : Reserved false r := Nat.le_of_eq hallocation.symm
  have hawaits := Reserved.awaitsHeadroom (rfl : Reserved true r.copy) hwf.copy hmax
  obtain ⟨r₂, hgranted₂, -, -⟩ := (hreserved.hasHeadroom hwf hmax).granted 0 2 hwithin
  have hcapacity' : r.copy.capacity = 4 := hcapacity
  have hpages' : r.copy.pages = 1 := hpages
  have hrefused := hawaits.refused 0 2 hwithin (by
    rw [hawaits.granted_iff 0 2 hwithin, hcapacity', hpages']
    decide)
  rw [hcapacity'] at hrefused
  obtain ⟨k, hk⟩ : ∃ k, r.copy.Granted defaultLimit 2 k := by
    rw [hawaits.granted_iff defaultLimit 2 hwithin, hcapacity']
    exact .inr (by decide)
  have hpages₂ : r₂.pages = 3 :=
    UInt32.toNat_inj.mp (hgranted₂.pages_eq.trans (by rw [hpages]; rfl))
  have hfits₂ : ¬r₂.toBacking.Fits 2 4 := by
    rw [Backing.Fits, hpages₂]
    decide
  have hgrow : ((Action.grow 1).perform defaultLimit).outcome (Region.new : Region 4) =
      (.ok (.number 0), r) := hgranted.outcome rfl
  have hfirst : ((Action.tryGrow 2).perform 0).outcome r = (.ok (.grown (.ok 1)), r₂) :=
    hpages ▸ hgranted₂.outcome rfl
  have hfirst' : ((Action.tryGrow 2).perform 0).outcome r.copy =
      (.ok (.grown (.error (.outOfMemory 4))), r.copy) := hrefused.outcome rfl
  have hlast : ((Action.tryGrow 2).perform defaultLimit).outcome r₂ =
      (.ok (.grown (.error (.exceedsCeiling 5 4))), r₂) :=
    (outcome_of_not_fits rfl hfits₂ defaultLimit).trans (by rw [hpages₂]; rfl)
  have hlast' : ((Action.tryGrow 2).perform defaultLimit).outcome r.copy =
      (.ok (.grown (.ok 1)), k) := hpages' ▸ hk.outcome rfl
  have hreached : (⟨defaultLimit, []⟩ : Session 4).run history =
      some ([⟨.made 0, some (Region.new : Region 4).readings⟩,
        ⟨.acted (.ok (.number 0)), some r.readings⟩], ⟨defaultLimit, [r]⟩) :=
    Stepped.new.run_cons ((Stepped.of_outcome rfl hgrow).run_cons rfl)
  have hrun : (⟨defaultLimit, [r]⟩ : Session 4).run before =
      some ([⟨.limitSet, none⟩, ⟨.acted (.ok (.grown (.ok 1))), some r₂.readings⟩,
        ⟨.limitSet, none⟩], ⟨defaultLimit, [r₂]⟩) :=
    Stepped.limitSet.run_cons ((Stepped.of_outcome rfl hfirst).run_cons
      (Stepped.limitSet.run_cons rfl))
  have hrun' : (⟨defaultLimit, [r.copy]⟩ : Session 4).run before =
      some ([⟨.limitSet, none⟩, ⟨.acted (.ok (.grown (.error (.outOfMemory 4)))),
        some r.copy.readings⟩, ⟨.limitSet, none⟩], ⟨defaultLimit, [r.copy]⟩) :=
    Stepped.limitSet.run_cons ((Stepped.of_outcome rfl hfirst').run_cons
      (Stepped.limitSet.run_cons rfl))
  have hstep := step_eq_some_iff.mpr
    (.of_outcome rfl hlast : (⟨defaultLimit, [r₂]⟩ : Session 4).Stepped (.act 0 (.tryGrow 2)) _ _)
  have hstep' := step_eq_some_iff.mpr
    (.of_outcome rfl hlast' : (⟨defaultLimit, [r.copy]⟩ : Session 4).Stepped
      (.act 0 (.tryGrow 2)) _ _)
  exact ⟨_, _, r, _, _, _, _, _, _, _, _, hreached, rfl, hrun, hrun', hstep, hstep', rfl, rfl,
    trivial, id⟩

end Session

end Region

end PagedMemory
