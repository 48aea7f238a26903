import Mathlib.Data.List.Nodup
import Mathlib.Data.List.Perm.Subperm
import Runbook.Proofs.WorkflowRoundTrip

/-! How unnamed questions get names. The candidates for a name are all different, so the loop over them
ends at one that is free, and since each name that is given counts as taken from then on, no name is
given twice and none that was there before. -/
namespace Runbook

/-- A question that states no variable name, or an empty one. -/
def Step.isUnnamed (s : Step) : Bool :=
  match s.body with
  | .question q => (q.variableName.getD "").isEmpty
  | _ => false

namespace Definition.Naming
variable {base name : String} {taken names : List String} {j k : Nat} {s t : Step}
  {ss ts : List Step}

/-- The loop over the candidates from the `k`-th on: it ends with the first that is not taken. -/
inductive Search (base : String) (taken : List String) : Nat → String → Prop where
  | stop {k : Nat} : candidate base k ∉ taken → Search base taken k (candidate base k)
  | next {k : Nat} {name : String} : candidate base k ∈ taken → Search base taken (k + 1) name →
      Search base taken k name

theorem Search.not_mem (h : Search base taken k name) : name ∉ taken := by
  induction h with
  | stop hfree => exact hfree
  | next _ _ ih => exact ih

theorem Search.ne_empty (h : Search base taken k name) (hbase : base ≠ "") : name ≠ "" := by
  induction h with
  | @stop k _ =>
    unfold candidate
    split
    · exact hbase
    · simp
  | next _ _ ih => exact ih

theorem toString_injective : Function.Injective (toString : Nat → String) := by
  intro j k h
  have hdigits : Nat.toDigits 10 j = Nat.toDigits 10 k := by
    simpa [Nat.toString_eq_ofList_toDigits] using congrArg String.toList h
  calc
    j = Nat.ofDigitChars 10 (Nat.toDigits 10 j) 0 := Nat.ofDigitChars_ten_toDigits.symm
    _ = Nat.ofDigitChars 10 (Nat.toDigits 10 k) 0 := by rw [hdigits]
    _ = k := Nat.ofDigitChars_ten_toDigits

theorem candidate_inj (hj : 1 ≤ j) (hk : 1 ≤ k) (h : candidate base j = candidate base k) :
    j = k := by
  have hlonger : ∀ n : Nat, base ++ "_" ++ toString n ≠ base := fun n hn => by
    have hlength := congrArg String.length hn
    have hline : "_".length = 1 := by decide
    rw [String.length_append, String.length_append] at hlength
    omega
  unfold candidate at h
  split at h <;> split at h
  · omega
  · exact absurd h.symm (hlonger k)
  · exact absurd h (hlonger j)
  · exact toString_injective ((String.append_right_inj _).1 h)

/-- Of one more candidates than there are taken names, one is free. -/
theorem exists_free (base : String) (taken : List String) :
    ∃ k ∈ List.range' 1 (taken.length + 1), candidate base k ∉ taken := by
  -- Else the candidates were more names than there are taken ones, all different and all taken.
  by_contra hall
  push Not at hall
  have hnodup : ((List.range' 1 (taken.length + 1)).map (candidate base)).Nodup :=
    List.Nodup.map_on (fun j hj k hk h =>
      candidate_inj (List.mem_range'_1.1 hj).1 (List.mem_range'_1.1 hk).1 h) List.nodup_range'
  have hlength := (hnodup.subperm (List.forall_mem_map.2 hall)).length_le
  rw [List.length_map, List.length_range'] at hlength
  omega

theorem search_of_free {n : Nat} (h : ∃ j ∈ List.range' k n, candidate base j ∉ taken) :
    Search base taken k
      ((((List.range' k n).map (candidate base)).find? (!taken.contains ·)).getD base) := by
  induction n generalizing k with
  | zero => simp at h
  | succ n ih =>
    rw [List.range'_succ, List.map_cons]
    by_cases hk : candidate base k ∈ taken
    · rw [List.find?_cons_of_neg (by simpa using hk)]
      refine .next hk (ih ?_)
      obtain ⟨j, hj, hfree⟩ := h
      rw [List.range'_succ] at hj
      exact ⟨j, (List.mem_cons.1 hj).resolve_left (by rintro rfl; exact hfree hk), hfree⟩
    · rw [List.find?_cons_of_pos (by simpa using hk)]
      exact .stop hk

theorem search_firstFree (base : String) (taken : List String) :
    Search base taken 1 (firstFree base taken) :=
  search_of_free (exists_free base taken)

/-- A pass over the steps: an unnamed question whose title gives a name gets the first candidate that
is free, which is taken from then on, and every other step is kept. The last list holds the names
that are given. -/
inductive Pass : List String → List Step → List Step → List String → Prop where
  | nil {taken : List String} : Pass taken [] [] []
  | keep {taken : List String} {s : Step} {ss ts : List Step} {names : List String} :
      (s.isUnnamed = true → VariableName.ofTitle? s.title = none) → Pass taken ss ts names →
      Pass taken (s :: ss) (s :: ts) names
  | give {taken : List String} {s : Step} {ss ts : List Step} {base name : String}
      {names : List String} : s.isUnnamed = true → VariableName.ofTitle? s.title = some base →
      Search base taken 1 name → Pass (name :: taken) ss ts names →
      Pass taken (s :: ss) (setName s name :: ts) (name :: names)

theorem wanted?_eq_ofTitle? (hs : ∀ q, s.body = .question q → q.variableName ≠ some "") :
    wanted? s = if s.isUnnamed then VariableName.ofTitle? s.title else none := by
  unfold wanted? Step.isUnnamed
  cases hb : s.body with
  | question q =>
    cases hq : q.variableName with
    | none => simp [hq]
    | some name =>
      have hname : name ≠ "" := fun h => hs q hb (h ▸ hq)
      simp [hq, hname]
  | _ => rfl

theorem pass_assign (hs : ∀ s ∈ ss, ∀ q, s.body = .question q → q.variableName ≠ some "")
    (taken : List String) : ∃ names, Pass taken ss (assign taken ss) names := by
  induction ss generalizing taken with
  | nil => exact ⟨[], .nil⟩
  | cons s rest ih =>
    have hwanted := wanted?_eq_ofTitle? (hs s (.head _))
    have hrest := fun taken => ih (fun t ht => hs t (.tail _ ht)) taken
    unfold assign
    split
    · next base hbase =>
      obtain ⟨names, hnames⟩ := hrest (firstFree base taken :: taken)
      rw [hbase] at hwanted
      split at hwanted
      · next hunnamed =>
        exact ⟨_, .give hunnamed hwanted.symm (search_firstFree base taken) hnames⟩
      · cases hwanted
    · next hnone =>
      obtain ⟨names, hnames⟩ := hrest taken
      refine ⟨names, .keep (fun hunnamed => ?_) hnames⟩
      rw [hnone, if_pos hunnamed] at hwanted
      exact hwanted.symm

/-- No name that is given is taken, or given again. -/
theorem Pass.fresh (h : Pass taken ss ts names) : names.Nodup ∧ ∀ name ∈ names, name ∉ taken := by
  induction h with
  | nil => simp
  | keep _ _ ih => exact ih
  | give _ _ hsearch _ ih =>
    obtain ⟨hnodup, hfree⟩ := ih
    refine ⟨List.nodup_cons.2 ⟨fun hmem => hfree _ hmem (.head _), hnodup⟩, ?_⟩
    exact List.forall_mem_cons.2 ⟨hsearch.not_mem,
      fun name hmem htaken => hfree name hmem (.tail _ htaken)⟩

theorem Pass.ne_empty (h : Pass taken ss ts names) : ∀ name ∈ names, name ≠ "" := by
  induction h with
  | nil => simp
  | keep _ _ ih => exact ih
  | give _ hbase hsearch _ ih =>
    refine List.forall_mem_cons.2 ⟨hsearch.ne_empty ?_, ih⟩
    rintro rfl
    obtain ⟨⟨c, hc, -⟩, -⟩ := VariableName.tidy_ofTitle? hbase
    cases hc

theorem Pass.forall₂ (h : Pass taken ss ts names) :
    List.Forall₂ (fun s t =>
      if s.isUnnamed ∧ (VariableName.ofTitle? s.title).isSome then
        ∃ name ∈ names, t = setName s name
      else t = s) ss ts := by
  induction h with
  | nil => exact .nil
  | keep hkeep _ ih =>
    refine .cons ?_ ih
    rw [if_neg]
    rintro ⟨hunnamed, hsome⟩
    simp [hkeep hunnamed] at hsome
  | give hunnamed hbase hsearch hrest ih =>
    refine .cons ?_ (ih.imp fun s t hst => ?_)
    · rw [if_pos ⟨hunnamed, by simp [hbase]⟩]
      exact ⟨_, .head _, rfl⟩
    · split at hst
      · next hwanted =>
        rw [if_pos hwanted]
        exact hst.imp fun name h => ⟨.tail _ h.1, h.2⟩
      · next hkept => rwa [if_neg hkept]

theorem mem_namesInUse :
    name ∈ namesInUse ss ↔ name ≠ "" ∧ ∃ s ∈ ss, s.variableName = .text name := by
  simp only [namesInUse, List.mem_filterMap]
  constructor
  · rintro ⟨s, hs, hname⟩
    split at hname
    · next t ht =>
      split at hname
      · cases hname
      · next hne =>
        cases hname
        exact ⟨by simpa using hne, s, hs, ht⟩
    · cases hname
  · rintro ⟨hne, s, hs, hname⟩
    exact ⟨s, hs, by simp [hname, hne]⟩

theorem settled_of_mem_assign (hh : ∀ s ∈ ss, unhashable? s.variableName = none)
    (h : t ∈ assign taken ss) : wanted? t = none ∧ unhashable? t.variableName = none := by
  obtain ⟨hmem, hnone⟩ | ⟨s, -, base, taken', hwanted, rfl⟩ := assign_cases h
  · exact ⟨hnone, hh t hmem⟩
  · unfold wanted? at hwanted
    split at hwanted
    · next q hq => simp [setName, hq, wanted?, Step.variableName, Value.ofText?, unhashable?]
    · cases hwanted

/-- Where no question has an empty name, as after reading, and no step a list or a record for one,
the pass over the steps ends. It gives a name to exactly the unnamed questions whose titles give one
and leaves the other steps alone; the names given are all different, none of them is a name of any
step from before, and a second pass changes nothing. -/
theorem assignNames_fresh
    (hs : ∀ s ∈ ss, ∀ q, s.body = .question q → q.variableName ≠ some "")
    (hh : ∀ s ∈ ss, unhashable? s.variableName = none) :
    ∃ ts names, assignNames ss = .ok ts ∧ Pass (namesInUse ss) ss ts names ∧
      List.Forall₂ (fun s t =>
        if s.isUnnamed ∧ (VariableName.ofTitle? s.title).isSome then
          ∃ name ∈ names, t = setName s name
        else t = s) ss ts ∧
      names.Nodup ∧ (∀ name ∈ names, ∀ s ∈ ss, s.variableName ≠ .text name) ∧
      assignNames ts = .ok ts := by
  obtain ⟨names, hpass⟩ := pass_assign hs (namesInUse ss)
  have hassign : assignNames ss = .ok (assign (namesInUse ss) ss) := by
    rw [assignNames, List.findSome?_eq_none_iff.2 hh]
  refine ⟨_, names, hassign, hpass, hpass.forall₂, hpass.fresh.1, fun name hname s hmem h => ?_,
    assignNames_eq_self (fun t ht => (settled_of_mem_assign hh ht).1)
      fun t ht => (settled_of_mem_assign hh ht).2⟩
  exact hpass.fresh.2 name hname (mem_namesInUse.2 ⟨hpass.ne_empty name hname, s, hmem, h⟩)

theorem name_ne_empty (hs : s.Tidy) : ∀ q, s.body = .question q → q.variableName ≠ some "" := by
  intro q hq hname
  have hbody := hs.body
  rw [hq] at hbody
  obtain ⟨⟨c, hc, -⟩, -⟩ := hbody "" hname
  cases hc

def rivals : List Value :=
  [.record [("id", .text "ask"), ("type", .text "question"), ("title", .text "Name?")],
    .record [("id", .text "again"), ("type", .text "question"), ("title", .text "Name 2")],
    .record [("id", .text "act"), ("type", .text "action"), ("variable_name", .text "name")]]

theorem assignNames_fresh_sample :
    ∃ ss, (readSteps 0 0 rivals).toExcept "Workflow" = .ok ss ∧
      (∀ s ∈ ss, ∀ q, s.body = .question q → q.variableName ≠ some "") ∧
      (∀ s ∈ ss, unhashable? s.variableName = none) ∧
      ∃ (ts : List Step) (names : List String), assignNames ss = .ok ts ∧
        ts.map (·.variableName.display) = ["name_2", "name_2_2", "name"] ∧
        names.Nodup ∧ (∀ name ∈ names, ∀ s ∈ ss, s.variableName ≠ .text name) ∧
        assignNames ts = .ok ts := by
  have hfaults : (readSteps 0 0 rivals).faults = [] := by decide +kernel
  have hhashable : ∀ s ∈ (readSteps 0 0 rivals).value, unhashable? s.variableName = none := by
    have hall : (readSteps 0 0 rivals).value.all
        (fun s => (unhashable? s.variableName).isNone) = true := by decide +kernel
    simpa using hall
  have hnames : (assignNames (readSteps 0 0 rivals).value).toOption.map
      (·.map (·.variableName.display)) = some ["name_2", "name_2_2", "name"] := by decide +kernel
  have hread : ∀ s ∈ (readSteps 0 0 rivals).value, ∀ q, s.body = .question q →
      q.variableName ≠ some "" := fun s hs => name_ne_empty (tidy_readSteps hfaults s hs)
  obtain ⟨ts, names, hts, -, -, hnodup, hfresh, hagain⟩ := assignNames_fresh hread hhashable
  refine ⟨_, Reading.toExcept_eq_ok.2 ⟨hfaults, rfl⟩, hread, hhashable, ts, names, hts, ?_, hnodup,
    hfresh, hagain⟩
  simpa [hts, Except.toOption] using hnames

end Definition.Naming
end Runbook
