/-
PagedMemory.Proofs.HiddenCapacity — what a memory keeps in reserve does not
show, as long as the allocator refuses nothing.

Two memories with the same contents, of any capacities and allocations, are
put through the same steps, under limits of their own.  Every growth is
compared with the ceiling through the pages alone, every access with the
bytes, and new pages are zero whether or not they lay in reserve.  So the
reports of the two runs are the same from step to step; a report is an
entry without the capacity and without debug texts, which show it.

Without the condition on the allocator the capacity can be told: it decides
how much room a growth asks for.  `neverRunsOut_of_limit` says where the
condition is met in any case.
-/
import PagedMemory.Proofs.RegionOutcomes
import PagedMemory.Proofs.SideBySide

namespace PagedMemory

namespace Region

variable {max : UInt32} {limit' limit : Nat} {action : Action} {r' r : Region max}

/-! ## One action -/

/-- The allocator refuses the action room. -/
def Action.RunsOut (limit : Nat) (action : Action) (r : Region max) : Prop :=
  ∃ delta pages, action.delta? = some delta ∧ r.OutOfMemory limit delta pages

theorem hasRoom_of_not_runsOut {delta : UInt32} (h : ¬action.RunsOut limit r)
    (hdelta : action.delta? = some delta) (hfits : r.toBacking.Fits delta max) :
    r.toBacking.HasRoom limit delta max := by
  by_contra hroom
  exact h ⟨delta, _, hdelta, outOfMemory_iff.mpr ⟨hfits, hroom, rfl⟩⟩

/-- An action that is not refused room does the same to the same contents,
and answers the same unless it is asked for a debug text. -/
theorem SameContents.perform (h : r'.SameContents r) (hroom' : ¬action.RunsOut limit' r')
    (hroom : ¬action.RunsOut limit r) :
    ((action.perform limit').outcome r').2.SameContents ((action.perform limit).outcome r).2 ∧
      ((∀ layout, action ≠ .debug layout) →
        ((action.perform limit').outcome r').1 = ((action.perform limit).outcome r).1) := by
  cases hdelta : action.delta? with
  | none =>
    obtain ⟨hafter, hanswer⟩ :=
      perform_withReserve r'.capacity r'.storage.allocation r hdelta limit' limit
    rw [← h.eq_withReserve] at hafter hanswer
    refine ⟨?_, fun hdebug => hanswer fun layout hlayout => absurd hlayout (hdebug layout)⟩
    rw [hafter]
    exact ⟨rfl, rfl⟩
  | some delta =>
    rw [outcome_growth hdelta, outcome_growth hdelta, outcome_tryGrow, outcome_tryGrow]
    by_cases hfits : r.toBacking.Fits delta max
    · have hfits' := h.fits_iff.mpr hfits
      rw [if_pos hfits, if_pos hfits', if_pos (hasRoom_of_not_runsOut hroom hdelta hfits),
        if_pos (hasRoom_of_not_runsOut hroom' hdelta hfits'), h.pages_eq]
      exact ⟨h.grown, fun _ => rfl⟩
    · rw [if_neg hfits, if_neg fun hfits' => hfits (h.fits_iff.mp hfits'), h.pages_eq]
      exact ⟨h, fun _ => rfl⟩

/-! ## Two memories -/

theorem SameContents.readings_eq (h : r'.SameContents r) :
    { r'.readings with capacity := 0 } = { r.readings with capacity := 0 } := by
  simp only [readings, activeSize, h.pages_eq, h.bytes_eq]

/-- An empty memory that has grown has the contents of one that was made with
the pages. -/
theorem sameContents_of_grow {n p : UInt32} (hmade : tryNew limit' n = .ok r')
    (hgrown : (grow limit n).outcome (new : Region max) = (.ok p, r)) (hp : p ≠ growFailed) :
    r'.SameContents r := by
  obtain ⟨-, -, rfl⟩ := tryNew_eq_ok_iff.mp hmade
  rw [outcome_grow] at hgrown
  split at hgrown
  · cases hgrown
    have hpages : (0 : UInt32) + n = n := UInt32.zero_add n
    -- there is nothing to keep, so all pages are padded with zeros in one go
    have hbytes : ((new : Region max).toBacking.grown n max).storage.bytes =
        (Storage.empty.resize (pageBytes (0 + n))).bytes := rfl
    rw [hpages] at hbytes
    exact ⟨hbytes.symm, hpages.symm⟩
  · cases hgrown
    exact absurd rfl hp

/-- Two limits that both allow for the pages of a new memory make the same
memory, or refuse it alike. -/
theorem tryNew_eq_tryNew {pages : UInt32}
    (hroom' : (tryNew limit' pages : Except _ (Region max)) ≠ .error (.outOfMemory pages))
    (hroom : (tryNew limit pages : Except _ (Region max)) ≠ .error (.outOfMemory pages)) :
    (tryNew limit' pages : Except _ (Region max)) = tryNew limit pages := by
  rw [tryNew_eq] at hroom' hroom ⊢
  rw [tryNew_eq]
  by_cases hmax : pages ≤ max
  · rw [if_pos hmax] at hroom' hroom ⊢
    rw [if_pos hmax]
    by_cases hlimit' : pageBytes pages ≤ limit'
    · by_cases hlimit : pageBytes pages ≤ limit
      · rw [if_pos hlimit', if_pos hlimit]
      · exact absurd (if_neg hlimit) hroom
    · exact absurd (if_neg hlimit') hroom'
  · rw [if_neg hmax, if_neg hmax]

namespace Session

variable {s s' t t' : Session max} {step step' : Step} {entry entry' : Entry}
  {steps steps' : List Step} {entries : List Entry}

/-! ## Reports -/

/-- An entry as it is seen by one who may not know the capacity. -/
structure Report where
  result : Option Result
  readings : Option Readings

/-- The report of a step: a debug text is left out, and so is the capacity. -/
def Step.report (step : Step) (entry : Entry) : Report where
  result :=
    match step with
    | .act _ (.debug _) => none
    | _ => some entry.result
  readings := entry.readings.map fun readings => { readings with capacity := 0 }

theorem Step.report_forgetLimit (step : Step) : step.forgetLimit.report = step.report := by
  cases step <;> rfl

theorem Entry.Pairs.report_eq (h : Entry.Pairs (@SameContents max) entry' entry) (step : Step) :
    step.report entry' = step.report entry := by
  have hreadings : entry'.readings.map (fun readings => { readings with capacity := 0 }) =
      entry.readings.map fun readings => { readings with capacity := 0 } :=
    h.map_readings fun _ _ hr => hr.readings_eq
  simp only [Step.report, h.result_eq, hreadings]

/-! ## Steps that are not refused room -/

/-- The allocator refuses the step room. -/
def RunsOut (s : Session max) : Step → Prop
  | .tryNew pages =>
    (Region.tryNew s.limit pages : Except _ (Region max)) = .error (.outOfMemory pages)
  | .act target action => ∃ r, s.regions[target]? = some r ∧ action.RunsOut s.limit r
  | _ => False

/-- The allocator refuses room to none of the steps. -/
def NeverRunsOut (s : Session max) (steps : List Step) : Prop :=
  ∀ before step after, steps = before ++ step :: after →
    ∀ first s₁, s.run before = some (first, s₁) → ¬s₁.RunsOut step

theorem NeverRunsOut.head (h : s.NeverRunsOut (step :: steps)) : ¬s.RunsOut step :=
  h [] step steps rfl [] s rfl

theorem NeverRunsOut.tail (h : s.NeverRunsOut (step :: steps))
    (hstep : s.step step = some (entry, s')) : s'.NeverRunsOut steps := by
  rintro before later after rfl first s₁ hrun
  exact h (step :: before) later after rfl (entry :: first) s₁
    (Steps.run_cons.mpr ⟨entry, s', first, hstep, hrun, rfl⟩)

theorem NeverRunsOut.cons (hroom : ¬s.RunsOut step)
    (hlater : ∀ entry s', s.step step = some (entry, s') → s'.NeverRunsOut steps) :
    s.NeverRunsOut (step :: steps) := by
  intro before later after hsteps first s₁ hrun
  cases before with
  | nil =>
    cases hsteps
    cases hrun
    exact hroom
  | cons _ before =>
    cases hsteps
    obtain ⟨entry, s', rest, hstep, hrest, -⟩ := Steps.run_cons.mp hrun
    exact hlater entry s' hstep before later after rfl rest s₁ hrest

/-- A step that neither session is refused room for leads both to the same
report and leaves the same contents. -/
theorem Stepped.same_report (h : s.Stepped step entry s')
    (hpairs : List.Forall₂ SameContents t.regions s.regions)
    (hsame : step'.forgetLimit = step.forgetLimit) (hroom' : ¬t.RunsOut step')
    (hroom : ¬s.RunsOut step) :
    ∃ entry' t', t.Stepped step' entry' t' ∧ step'.report entry' = step.report entry ∧
      List.Forall₂ SameContents t'.regions s'.regions := by
  have hreport : step'.report = step.report := by
    rw [← Step.report_forgetLimit, hsame, Step.report_forgetLimit]
  have hmake : ∀ pages, step = .tryNew pages →
      (Region.tryNew t.limit pages : Except _ (Region max)) = Region.tryNew s.limit pages := by
    -- a step that differs at most in a limit makes the same number of pages
    rintro pages rfl
    cases step' <;> cases hsame
    exact tryNew_eq_tryNew hroom' hroom
  rcases h.pair SameContents.refl SameContents.copy hpairs hsame hmake with
    ⟨entry', t', hstep', hentry, hafter⟩ | ⟨target, action, r', r, rfl, rfl, hr', hr, hsame⟩
  · exact ⟨entry', t', hstep', by rw [hreport, hentry.report_eq], hafter⟩
  · cases h with
    | acted hr₁ =>
      cases hr.symm.trans hr₁
      obtain ⟨hcontents, hanswer⟩ := hsame.perform
        (fun hout => hroom' ⟨r', hr', hout⟩) (fun hout => hroom ⟨r, hr, hout⟩)
      refine ⟨_, _, .acted hr', ?_, forall₂_set hpairs hcontents⟩
      have hreadings := hcontents.readings_eq
      cases action with
      | debug layout => simp only [Step.report, Option.map_some, hreadings]
      | _ =>
        have hsaid := hanswer fun _ => Action.noConfusion
        simp only [Step.report, Option.map_some, hreadings, hsaid]

/-! ## Runs -/

/-- No steps tell the two memories apart, under whatever limits each of them
takes the steps, except by the capacity or by being refused room. -/
def Indistinguishable (r' r : Region max) : Prop :=
  ∀ (limit' limit : Nat) (steps' steps : List Step) (entries : List Entry) (s : Session max),
    steps'.map Step.forgetLimit = steps.map Step.forgetLimit →
    (⟨limit, [r]⟩ : Session max).run steps = some (entries, s) →
    (⟨limit', [r']⟩ : Session max).NeverRunsOut steps' →
    (⟨limit, [r]⟩ : Session max).NeverRunsOut steps →
    ∃ entries' t, (⟨limit', [r']⟩ : Session max).run steps' = some (entries', t) ∧
      List.zipWith Step.report steps' entries' = List.zipWith Step.report steps entries ∧
      List.Forall₂ SameContents t.regions s.regions

/-- The reports of two runs are the same from their first step to their last. -/
theorem run_same_reports (hpairs : List.Forall₂ SameContents t.regions s.regions)
    (hsame : steps'.map Step.forgetLimit = steps.map Step.forgetLimit)
    (hrun : s.run steps = some (entries, s')) (hroom' : t.NeverRunsOut steps')
    (hroom : s.NeverRunsOut steps) :
    ∃ entries' t', t.run steps' = some (entries', t') ∧
      List.zipWith Step.report steps' entries' = List.zipWith Step.report steps entries ∧
      List.Forall₂ SameContents t'.regions s'.regions := by
  induction steps generalizing s t steps' entries with
  | nil =>
    cases hrun
    rw [List.map_nil, List.map_eq_nil_iff] at hsame
    subst hsame
    exact ⟨[], t, rfl, rfl, hpairs⟩
  | cons step steps ih =>
    obtain ⟨entry, s₁, rest, hs, hrest, rfl⟩ := Steps.run_cons.mp hrun
    rw [List.map_cons, List.map_eq_cons_iff] at hsame
    obtain ⟨step', steps', rfl, hstep', hsteps'⟩ := hsame
    obtain ⟨entry', t₁, ht, hreport, hpairs₁⟩ :=
      (step_eq_some_iff.mp hs).same_report hpairs hstep' hroom'.head hroom.head
    have ht := step_eq_some_iff.mpr ht
    obtain ⟨rest', t', hrest', hreports, hafter⟩ :=
      ih hpairs₁ hsteps' hrest (hroom'.tail ht) (hroom.tail hs)
    refine ⟨entry' :: rest', t', Steps.run_cons.mpr ⟨entry', t₁, rest', ht, hrest', rfl⟩, ?_, hafter⟩
    rw [List.zipWith_cons_cons, List.zipWith_cons_cons, hreport, hreports]

theorem indistinguishable_of_sameContents (h : r'.SameContents r) : Indistinguishable r' r := by
  intro limit' limit steps' steps entries s hsame hrun hroom' hroom
  exact run_same_reports (.cons h .nil) hsame hrun hroom' hroom

/-! ## Where nothing is refused room -/

theorem not_runsOut_of_limit (hlimit : pageBytes max ≤ s.limit)
    (hs : ∀ r ∈ s.regions, r.WellFormed) : ¬s.RunsOut step := by
  cases step with
  | tryNew pages =>
    rw [RunsOut, tryNew_eq]
    by_cases hmax : pages ≤ max
    · rw [if_pos hmax, if_pos (Nat.le_trans (pageBytes_le_iff.mpr hmax) hlimit)]
      exact fun h => nomatch h
    · rw [if_neg hmax]
      exact fun h => nomatch h
  | act target action =>
    rintro ⟨r, hr, delta, pages, -, hrefused⟩
    obtain ⟨hfits, hroom, -⟩ := outOfMemory_iff.mp hrefused
    have hwf := hs r (List.mem_of_getElem? hr)
    exact hroom (hwf.hasRoom hfits hlimit)
  | _ => exact id

/-- Where the limit always allows for the declared maximum, nothing is refused
room, whatever the capacities and allocations. -/
theorem neverRunsOut_of_limit (hlimit : pageBytes max ≤ s.limit)
    (hs : ∀ r ∈ s.regions, r.WellFormed)
    (hset : ∀ bytes, Step.setLimit bytes ∈ steps → pageBytes max ≤ bytes.getD defaultLimit) :
    s.NeverRunsOut steps := by
  induction steps generalizing s with
  | nil => exact fun before step after hnil => absurd hnil.symm (by simp)
  | cons first later ih =>
    -- a step keeps the memories well formed, and the limit as large as it has to be
    refine .cons (not_runsOut_of_limit hlimit hs) fun entry s' hstep => ?_
    have hstep := step_eq_some_iff.mp hstep
    refine ih ?_ (hstep.wellFormed hs) fun bytes hmem => hset bytes (List.mem_cons_of_mem _ hmem)
    cases hstep with
    | limitSet => exact hset _ (List.mem_cons_self ..)
    | _ => exact hlimit

/-! ## The reserve -/

/-- What a memory keeps in reserve does not show: two memories with the same
contents cannot be told apart, and a memory that was made with some pages
cannot be told from an empty one that has grown by as many. -/
theorem reserve_does_not_show :
    (∀ r' r : Region max, r'.pages = r.pages → r'.bytes = r.bytes → Indistinguishable r' r) ∧
    ∀ (limit' limit : Nat) (n p : UInt32) (r' r : Region max), Region.tryNew limit' n = .ok r' →
      (grow limit n).outcome (Region.new : Region max) = (.ok p, r) → p ≠ growFailed →
      Indistinguishable r' r := by
  constructor
  · intro r' r hpages hbytes
    exact indistinguishable_of_sameContents ⟨hbytes, hpages⟩
  · intro limit' limit n p r' r hmade hgrown hp
    exact indistinguishable_of_sameContents (sameContents_of_grow hmade hgrown hp)

/-- One page that a memory was made with and one that it has grown by: the
capacities are 1 and 8, and the two go on with the same reports. -/
theorem reserve_does_not_show_in_sixteen :
    let steps : List Step := [.act 0 (.grow 7), .act 0 (.store .w32 65534 7), .copy 0,
      .act 0 (.tryGrow 9), .act 0 (.load .w64 600000)]
    ∃ r' r : Region 16, Region.tryNew defaultLimit 1 = .ok r' ∧
      (grow defaultLimit 1).outcome Region.new = (.ok 0, r) ∧
      r'.capacity = 1 ∧ r.capacity = 8 ∧
      ∃ entries' t entries s,
        (⟨defaultLimit, [r']⟩ : Session 16).run steps = some (entries', t) ∧
        (⟨defaultLimit, [r]⟩ : Session 16).run steps = some (entries, s) ∧
        List.zipWith Step.report steps entries' = List.zipWith Step.report steps entries ∧
        List.Forall₂ SameContents t.regions s.regions := by
  intro steps
  have hlimit : pageBytes 16 ≤ defaultLimit := by decide
  obtain ⟨r, hgranted, hwf, -, htarget, -⟩ :
      ∃ r : Region 16, Granted defaultLimit 1 Region.new r ∧ _ :=
    exists_granted_new (by decide) hlimit
  have hgrown : (grow defaultLimit 1).outcome Region.new = (.ok 0, r) := hgranted.grow_eq
  have hmade : Region.tryNew defaultLimit 1 = .ok (zeroed 1 : Region 16) :=
    tryNew_eq_ok_iff.mpr ⟨by decide, by decide, rfl⟩
  have hcapacity : r.capacity = 8 :=
    htarget.trans (UInt32.toNat_inj.mp (toNat_target_new (by decide) (by decide)))
  have hsets : ∀ bytes, Step.setLimit bytes ∈ steps → pageBytes 16 ≤ bytes.getD defaultLimit := by
    simp [steps]
  have hnames : ∀ step ∈ steps, step.Names 1 := by simp [steps, Step.Names]
  obtain ⟨entries, s, hrun⟩ := exists_run (s := (⟨defaultLimit, [r]⟩ : Session 16)) hnames
  obtain ⟨entries', t, hrun', hreports, hcontents⟩ :=
    reserve_does_not_show.2 _ _ _ _ _ _ hmade hgrown (by decide) defaultLimit defaultLimit steps
      steps entries s rfl hrun
      (neverRunsOut_of_limit hlimit (by simpa using WellFormed.of_tryNew hmade) hsets)
      (neverRunsOut_of_limit hlimit (by simpa using hwf) hsets)
  exact ⟨_, _, hmade, hgrown, rfl, hcapacity, entries', t, entries, s, hrun', hrun, hreports,
    hcontents⟩

end Session

end Region

end PagedMemory
