/-
PagedMemory.Proofs.SideBySide — a session together with something that is
kept in step with it, memory by memory.

  - `Ledger γ`         — notes beside the memories of a session, read off its
                         steps and their entries alone.  A ledger is
                         `Sound` for a property of notes and memories that
                         holds of a memory as it is made and that copies and
                         actions keep; then it holds at every moment of
                         every run (`Ledger.Sound.run`).
  - `Stepped.pair`     — a second session whose memories are related to
                         those of the first, one by one, and that takes the
                         same steps, perhaps under other limits.  What
                         makes memories keeps the two related, so of a
                         relation only actions are left to be looked at.

Both match lists index by index, with `List.Forall₂`, which a memory added
to both sides and a change at the same place on both sides keep.
-/
import PagedMemory.Proofs.RegionInvariant
import Mathlib.Data.List.Forall2

namespace PagedMemory

/-! ## Lists matched index by index -/

section Matched

variable {α β : Type} {R : α → β → Prop} {xs : List α} {ys : List β} {x : α} {y : β} {i : Nat}

theorem forall₂_concat (h : List.Forall₂ R xs ys) (hxy : R x y) :
    List.Forall₂ R (xs ++ [x]) (ys ++ [y]) :=
  List.rel_append h (.cons hxy .nil)

theorem forall₂_getElem? (h : List.Forall₂ R xs ys) (hy : ys[i]? = some y) :
    ∃ x, xs[i]? = some x ∧ R x y := by
  induction h generalizing i with
  | nil => cases hy
  | @cons a b as bs hab _ ih =>
    cases i with
    | zero =>
      cases hy
      exact ⟨a, rfl, hab⟩
    | succ i => exact ih hy

theorem forall₂_set (h : List.Forall₂ R xs ys) (hxy : R x y) :
    List.Forall₂ R (xs.set i x) (ys.set i y) := by
  induction h generalizing i with
  | nil => exact .nil
  | cons hab hrest ih =>
    cases i with
    | zero => exact .cons hxy hrest
    | succ i => exact .cons hab ih

theorem modify_of_getElem? {f : α → α} (h : xs[i]? = some x) : xs.modify i f = xs.set i (f x) := by
  rw [List.modify_eq_set_getElem?, h]
  rfl

end Matched

namespace Region

namespace Session

variable {max : UInt32} {s s' t : Session max} {step step' : Step} {entry : Entry}

/-! ## Ledgers -/

/-- How to keep a note beside each memory of a session. -/
structure Ledger (γ : Type) where
  /-- The note of a memory that was made with some pages, or empty. -/
  made : UInt32 → γ
  /-- The note of a copy, from that of its original. -/
  copied : γ → γ
  /-- The note after an action, from its answer and the sizes it left. -/
  acted : Action → Except Fault Answer → Readings → γ → γ

namespace Ledger

variable {γ : Type} (ledger : Ledger γ)

/-- The notes after a step, as the step and its entry tell. -/
def record (notes : List γ) : Step → Entry → List γ
  | .new, ⟨.made _, _⟩ => notes ++ [ledger.made 0]
  | .tryNew pages, ⟨.made _, _⟩ => notes ++ [ledger.made pages]
  | .copy source, ⟨.made _, _⟩ => notes ++ (notes[source]?.map ledger.copied).toList
  | .act target action, ⟨.acted answer, some readings⟩ =>
    notes.modify target (ledger.acted action answer readings)
  | _, _ => notes

/-- The notes after a run. -/
def recordAll : List γ → List Step → List Entry → List γ
  | notes, step :: steps, entry :: entries => recordAll (ledger.record notes step entry) steps entries
  | notes, _, _ => notes

/-- A property of notes and memories that holds from the start of a memory
and that nothing undoes. -/
structure Sound (Holds : γ → Region max → Prop) : Prop where
  new : Holds (ledger.made 0) Region.new
  made : ∀ {limit pages r}, Region.tryNew limit pages = .ok r → Holds (ledger.made pages) r
  copied : ∀ {note} {r : Region max}, r.WellFormed → Holds note r → Holds (ledger.copied note) r.copy
  acted : ∀ {note} {r : Region max} (limit : Nat) (action : Action), r.WellFormed → Holds note r →
    Holds (ledger.acted action ((action.perform limit).outcome r).1
      ((action.perform limit).outcome r).2.readings note) ((action.perform limit).outcome r).2

variable {ledger} {Holds : γ → Region max → Prop} {notes : List γ}

theorem Sound.stepped (h : ledger.Sound Holds) (hstep : s.Stepped step entry s')
    (hs : ∀ r ∈ s.regions, r.WellFormed) (hnotes : List.Forall₂ Holds notes s.regions) :
    List.Forall₂ Holds (ledger.record notes step entry) s'.regions := by
  cases hstep with
  | new => exact forall₂_concat hnotes h.new
  | refused _ => exact hnotes
  | made hr => exact forall₂_concat hnotes (h.made hr)
  | @copied source r hr =>
    obtain ⟨note, hnote, hholds⟩ := forall₂_getElem? hnotes hr
    have hrecord : ledger.record notes (.copy source) (s.add r.copy).1 =
        notes ++ [ledger.copied note] :=
      congrArg (fun found : Option γ => notes ++ (found.map ledger.copied).toList) hnote
    rw [hrecord]
    exact forall₂_concat hnotes (h.copied (hs r (List.mem_of_getElem? hr)) hholds)
  | @acted target action r hr =>
    obtain ⟨note, hnote, hholds⟩ := forall₂_getElem? hnotes hr
    rw [record, modify_of_getElem? hnote]
    exact forall₂_set hnotes (h.acted s.limit action (hs r (List.mem_of_getElem? hr)) hholds)
  | limitSet => exact hnotes

theorem Sound.run_of_wellFormed (h : ledger.Sound Holds) {steps : List Step}
    {entries : List Entry} (hrun : s.run steps = some (entries, s'))
    (hs : ∀ r ∈ s.regions, r.WellFormed) (hnotes : List.Forall₂ Holds notes s.regions) :
    List.Forall₂ Holds (ledger.recordAll notes steps entries) s'.regions := by
  induction steps generalizing s notes entries with
  | nil =>
    cases hrun
    exact hnotes
  | cons step steps ih =>
    obtain ⟨entry, s₁, rest, hstep, hrest, rfl⟩ := Steps.run_cons.mp hrun
    have hstepped := step_eq_some_iff.mp hstep
    exact ih hrest (hstepped.wellFormed hs) (h.stepped hstepped hs hnotes)

/-- At every moment of a run from a session without memories, every memory
has a note and the note is true of it. -/
theorem Sound.run (h : ledger.Sound Holds) {limit : Nat} {steps before after : List Step}
    {entries : List Entry} (hrun : (⟨limit, []⟩ : Session max).run steps = some (entries, s'))
    (hsteps : steps = before ++ after) :
    ∃ first s₁ rest, (⟨limit, []⟩ : Session max).run before = some (first, s₁) ∧
      entries = first ++ rest ∧
      ∀ (i : Nat) (r : Region max), s₁.regions[i]? = some r → r.WellFormed ∧
        ∃ note, (ledger.recordAll [] before first)[i]? = some note ∧ Holds note r := by
  subst hsteps
  obtain ⟨first, s₁, rest, hfirst, -, rfl⟩ := Steps.run_append.mp hrun
  refine ⟨first, s₁, rest, hfirst, rfl, fun i r hr => ⟨?_, ?_⟩⟩
  · exact run_wellFormed hfirst wellFormed_none r (List.mem_of_getElem? hr)
  · exact forall₂_getElem? (h.run_of_wellFormed hfirst wellFormed_none .nil) hr

end Ledger

/-! ## Two sessions -/

/-- The step with the limit that it sets, if it sets one, left out. -/
def Step.forgetLimit : Step → Step
  | .setLimit _ => .setLimit none
  | step => step

/-- Two entries that differ at most as the sizes of related memories do. -/
structure Entry.Pairs (P : Region max → Region max → Prop) (e' e : Entry) : Prop where
  result_eq : e'.result = e.result
  readings : Option.Rel (fun ρ' ρ => ∃ r' r, P r' r ∧ ρ' = r'.readings ∧ ρ = r.readings)
    e'.readings e.readings

section Pair

variable {P : Region max → Region max → Prop}

theorem entry_add_pairs {r' r : Region max} (h : List.Forall₂ P t.regions s.regions)
    (hr : P r' r) : Entry.Pairs P (t.add r').1 (s.add r).1 where
  result_eq := congrArg Result.made h.length_eq
  readings := .some ⟨r', r, hr, rfl, rfl⟩

/-- What related memories agree on, the entries agree on. -/
theorem Entry.Pairs.map_readings {β : Type} {f : Readings → β} {e' e : Entry}
    (h : Entry.Pairs P e' e) (hf : ∀ r' r, P r' r → f r'.readings = f r.readings) :
    e'.readings.map f = e.readings.map f := by
  obtain ⟨-, hreadings⟩ := h
  generalize e'.readings = ρ', e.readings = ρ at hreadings ⊢
  cases hreadings with
  | none => rfl
  | some hpair =>
    obtain ⟨r', r, hr, rfl, rfl⟩ := hpair
    exact congrArg some (hf r' r hr)

/-- Two sessions with related memories that take the same step: if it makes
a memory or sets the limit, they tell the same and stay related; otherwise
it acts on two related memories. -/
theorem Stepped.pair (hrefl : ∀ r, P r r) (hcopy : ∀ {r' r}, P r' r → P r'.copy r.copy)
    (h : s.Stepped step entry s') (hpairs : List.Forall₂ P t.regions s.regions)
    (hsame : step'.forgetLimit = step.forgetLimit)
    (hmake : ∀ pages, step = .tryNew pages →
      (Region.tryNew t.limit pages : Except _ (Region max)) = Region.tryNew s.limit pages) :
    (∃ entry' t', t.Stepped step' entry' t' ∧ Entry.Pairs P entry' entry ∧
      List.Forall₂ P t'.regions s'.regions) ∨
    ∃ target action r' r, step = .act target action ∧ step' = .act target action ∧
      t.regions[target]? = some r' ∧ s.regions[target]? = some r ∧ P r' r := by
  cases h with
  | new =>
    cases step' <;> cases hsame
    exact Or.inl ⟨_, _, .new, entry_add_pairs hpairs (hrefl _), forall₂_concat hpairs (hrefl _)⟩
  | refused he =>
    cases step' <;> cases hsame
    exact Or.inl ⟨_, _, .refused ((hmake _ rfl).trans he), ⟨rfl, .none⟩, hpairs⟩
  | made hr =>
    cases step' <;> cases hsame
    exact Or.inl ⟨_, _, .made ((hmake _ rfl).trans hr), entry_add_pairs hpairs (hrefl _),
      forall₂_concat hpairs (hrefl _)⟩
  | copied hr =>
    cases step' <;> cases hsame
    obtain ⟨r', hr', hrelated⟩ := forall₂_getElem? hpairs hr
    exact Or.inl ⟨_, _, .copied hr', entry_add_pairs hpairs (hcopy hrelated),
      forall₂_concat hpairs (hcopy hrelated)⟩
  | acted hr =>
    cases step' <;> cases hsame
    obtain ⟨r', hr', hrelated⟩ := forall₂_getElem? hpairs hr
    exact Or.inr ⟨_, _, r', _, rfl, rfl, hr', hr, hrelated⟩
  | limitSet =>
    cases step' <;> cases hsame
    exact Or.inl ⟨_, _, .limitSet, ⟨rfl, .none⟩, hpairs⟩

end Pair

end Session

end Region

end PagedMemory
